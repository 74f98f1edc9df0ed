import Firmware.Bytes
/-!
# Hex — octets as pairs of hexadecimal digits

Octets are written in lower case.  `Hex.octet?` reads two characters the lenient way: one sign `+` may stand in the
place of the first digit.
-/
namespace Firmware.Hex

def digit? (c : Char) : Option Nat :=
  if '0' ≤ c ∧ c ≤ '9' then some (c.toNat - 48)
  else if 'a' ≤ c ∧ c ≤ 'f' then some (c.toNat - 87)
  else if 'A' ≤ c ∧ c ≤ 'F' then some (c.toNat - 55)
  else none

def octet (b : UInt8) : List Char := [Nat.digitChar (b.toNat / 16), Nat.digitChar (b.toNat % 16)]

def text (b : Bytes) : String := String.ofList (b.flatMap octet)

/-- The octet spelled by two characters: two digits, or a plus sign and one digit. -/
def octet? (high low : Char) : Option UInt8 := do
  let l ← digit? low
  if high = '+' then return UInt8.ofNat l
  let h ← digit? high
  return UInt8.ofNat (16 * h + l)

def octets? : List Char → Option Bytes
  | [] => some []
  | [_] => none
  | high :: low :: rest => do
    let b ← octet? high low
    return b :: (← octets? rest)

/-! ## Digits of either case -/

def IsDigit (n : Nat) (c : Char) : Prop :=
  n < 16 ∧ (c = Nat.digitChar n ∨ c = (Nat.digitChar n).toUpper)

instance (n : Nat) (c : Char) : Decidable (IsDigit n c) := inferInstanceAs (Decidable (_ ∧ _))

theorem IsDigit.digit?_eq {n : Nat} {c : Char} (h : IsDigit n c) : digit? c = some n := by
  have all : ∀ n < 16, digit? (Nat.digitChar n) = some n ∧ digit? (Nat.digitChar n).toUpper = some n := by decide
  obtain ⟨hn, rfl | rfl⟩ := h
  · exact (all n hn).1
  · exact (all n hn).2

inductive Spells : Bytes → List Char → Prop where
  | nil : Spells [] []
  | cons {b : UInt8} {bs : Bytes} {high low : Char} {cs : List Char} (hh : IsDigit (b.toNat / 16) high)
    (hl : IsDigit (b.toNat % 16) low) (h : Spells bs cs) : Spells (b :: bs) (high :: low :: cs)

theorem octet?_of_isDigit {b : UInt8} {high low : Char} (hh : IsDigit (b.toNat / 16) high)
    (hl : IsDigit (b.toNat % 16) low) : octet? high low = some b := by
  have hsign : high ≠ '+' := by
    rintro rfl
    have hnone : digit? '+' = none := by decide
    have := hh.digit?_eq
    simp [hnone] at this
  have hb : UInt8.ofNat (16 * (b.toNat / 16) + b.toNat % 16) = b := by
    rw [Nat.div_add_mod, UInt8.ofNat_toNat]
  simp only [octet?, hsign, if_false, hh.digit?_eq, hl.digit?_eq, Option.pure_def, Option.bind_eq_bind,
    Option.bind_some, hb]

end Firmware.Hex
