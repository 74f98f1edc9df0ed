import Mathlib.Algebra.Group.Nat.Defs
import Firmware.Text.Decimal
/-!
# Decimal — the number that digits write

Each digit counts by its place.  A number is read from one digit or more (`value?_eq_some_iff`), and where a sign may
stand, from digits behind a plus sign as well (`signed?_eq_some_iff`).
-/
namespace Firmware.Decimal

def worth : List Char → Nat
  | [] => 0
  | c :: cs => (c.toNat - '0'.toNat) * 10 ^ cs.length + worth cs

theorem ofDigitChars_eq_worth (cs : List Char) (init : Nat) :
    Nat.ofDigitChars 10 cs init = init * 10 ^ cs.length + worth cs := by
  induction cs generalizing init with
  | nil => simp [worth]
  | cons c cs ih =>
    rw [Nat.ofDigitChars_cons, ih, worth, List.length_cons, Nat.pow_succ, Nat.add_mul, Nat.add_assoc,
      Nat.mul_comm 10 init, Nat.mul_assoc, Nat.mul_comm 10]

theorem isDigit_iff {c : Char} : c.isDigit = true ↔ '0' ≤ c ∧ c ≤ '9' := by
  simp [Char.isDigit, Char.le_def]

theorem worth_lt {cs : List Char} (h : ∀ c ∈ cs, c.isDigit = true) : worth cs < 10 ^ cs.length := by
  induction cs with
  | nil => decide
  | cons c cs ih =>
    obtain ⟨hc, hcs⟩ := List.forall_mem_cons.1 h
    have hdigit : c.toNat ≤ '9'.toNat := (isDigit_iff.1 hc).2
    have hplace : (c.toNat - '0'.toNat) * 10 ^ cs.length ≤ 9 * 10 ^ cs.length :=
      Nat.mul_le_mul_right _ (Nat.sub_le_sub_right hdigit _)
    have hrest := ih hcs
    rw [worth, List.length_cons, Nat.pow_succ]
    omega

/-- **A number is read from digits, one at least**, by their places. -/
theorem value?_eq_some_iff {cs : List Char} {n : Nat} :
    value? cs = some n ↔ cs ≠ [] ∧ (∀ c ∈ cs, c.isDigit = true) ∧ worth cs = n := by
  have hworth : Nat.ofDigitChars 10 cs 0 = worth cs := by rw [ofDigitChars_eq_worth, Nat.zero_mul, Nat.zero_add]
  unfold value?
  split
  · rename_i hdigits
    simp only [Bool.and_eq_true, Bool.not_eq_true', List.isEmpty_eq_false_iff, List.all_eq_true] at hdigits
    rw [hworth, Option.some.injEq]
    exact ⟨fun h => ⟨hdigits.1, hdigits.2, h⟩, fun h => h.2.2⟩
  · rename_i hdigits
    simp only [Bool.and_eq_true, Bool.not_eq_true', List.isEmpty_eq_false_iff, List.all_eq_true] at hdigits
    exact ⟨nofun, fun h => absurd ⟨h.1, h.2.1⟩ hdigits⟩

/-- The text writes the number: in digits, one at least, that a plus sign may stand before. -/
def Spells (cs : List Char) (n : Nat) : Prop :=
  ∃ digits, (cs = digits ∨ cs = '+' :: digits) ∧ digits ≠ [] ∧ (∀ c ∈ digits, '0' ≤ c ∧ c ≤ '9') ∧ worth digits = n

/-- **A number below the bound is read from the texts that write it**, and from no others. -/
theorem signed?_eq_some_iff {bound n : Nat} {cs : List Char} : signed? bound cs = some n ↔ Spells cs n ∧ n < bound := by
  have hvalue (digits : List Char) :
      value? digits = some n ↔ digits ≠ [] ∧ (∀ c ∈ digits, '0' ≤ c ∧ c ≤ '9') ∧ worth digits = n := by
    simp only [value?_eq_some_iff, isDigit_iff]
  unfold signed?
  rw [Option.filter_eq_some_iff, decide_eq_true_eq]
  refine and_congr_left fun _ => ?_
  split
  · rename_i rest
    rw [hvalue]
    constructor
    · exact fun h => ⟨rest, .inr rfl, h⟩
    · rintro ⟨digits, rfl | hrest, hdigits⟩
      · exact absurd (hdigits.2.1 '+' List.mem_cons_self) (by decide)
      · rwa [(List.cons.inj hrest).2]
  · rename_i hsign
    rw [hvalue]
    constructor
    · exact fun h => ⟨cs, .inl rfl, h⟩
    · rintro ⟨digits, rfl | hrest, hdigits⟩
      · exact hdigits
      · exact absurd hrest (hsign digits)

theorem signed?_eq_none_iff {bound : Nat} {cs : List Char} : signed? bound cs = none ↔ ∀ n < bound, ¬ Spells cs n := by
  simp only [Option.eq_none_iff_forall_ne_some, ne_eq, signed?_eq_some_iff]
  exact ⟨fun h n hn hspells => h n ⟨hspells, hn⟩, fun h n hn => h n hn.2 hn.1⟩

end Firmware.Decimal
