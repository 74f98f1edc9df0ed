/-!
# Decimal — whole numbers in digits

A number is written in base ten without leading zeros.  Reading is a little wider: leading zeros are allowed, and
`signed?` also lets a plus sign stand in front.
-/
namespace Firmware.Decimal

def text (n : Nat) : String := String.ofList (Nat.toDigits 10 n)

def value? (cs : List Char) : Option Nat :=
  if !cs.isEmpty && cs.all Char.isDigit then some (Nat.ofDigitChars 10 cs 0) else none

/-- The value of digits that may follow a plus sign, if it is below `bound`. -/
def signed? (bound : Nat) (cs : List Char) : Option Nat :=
  let digits := match cs with
    | '+' :: rest => rest
    | _ => cs
  (value? digits).filter (· < bound)

/-- The number in base ten, filled up with blanks on the left to `width` characters. -/
def padded (width n : Nat) : String :=
  let digits := Nat.toDigits 10 n
  String.ofList (List.replicate (width - digits.length) ' ' ++ digits)

/-- **What is written reads back.** -/
theorem value?_text (n : Nat) : value? (text n).toList = some n := by
  have hd : (Nat.toDigits 10 n).all Char.isDigit = true := by
    rw [List.all_eq_true]
    exact fun c hc => Nat.isDigit_of_mem_toDigits (by decide) (by decide) hc
  have hne : (Nat.toDigits 10 n).isEmpty = false := List.isEmpty_eq_false_iff.2 Nat.toDigits_ne_nil
  simp [value?, text, hd, hne]

theorem isDigit_of_mem_text {n : Nat} {c : Char} (h : c ∈ (text n).toList) : c.isDigit = true := by
  rw [text, String.toList_ofList] at h
  exact Nat.isDigit_of_mem_toDigits (by decide) (by decide) h

theorem signed?_of_value? {bound n : Nat} {cs : List Char} (h : value? cs = some n) (hn : n < bound) :
    signed? bound cs = some n := by
  unfold signed?
  split
  · rename_i rest
    have hsign : value? ('+' :: rest) = none := rfl
    rw [hsign] at h
    cases h
  · simp [h, hn]

end Firmware.Decimal
