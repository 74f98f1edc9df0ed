import Mathlib.Algebra.Group.Nat.Defs
import Firmware.Image.Range
import Firmware.Image.Size
/-!
# Size — how many octets a number takes

A number below `10 ^ k` is written in `k` octets at most.  So the header that asks for a range is never cut by its room
(`ByteRange.header_eq`), and a header that declares a size of up to eight digits is short enough to be read.
-/
namespace Firmware

theorem utf8ByteSize_ofList_of_utf8Size : ∀ {cs : List Char}, (∀ c ∈ cs, c.utf8Size = 1) →
    (String.ofList cs).utf8ByteSize = cs.length
  | [], _ => rfl
  | c :: cs, h => by
    have hc : c.utf8Size = 1 := h c (by simp)
    have hcs : (String.ofList cs).utf8ByteSize = cs.length :=
      utf8ByteSize_ofList_of_utf8Size fun c' hc' => h c' (by simp [hc'])
    rw [String.ofList_cons, String.utf8ByteSize_append, String.utf8ByteSize_singleton, hc, hcs, List.length_cons]
    omega

theorem utf8Size_of_isDigit {c : Char} (h : c.isDigit = true) : c.utf8Size = 1 := by
  rw [Char.utf8Size_eq_one_iff]
  simp only [Char.isDigit, Bool.and_eq_true, decide_eq_true_eq, UInt32.le_iff_toNat_le] at h
  rw [UInt32.le_iff_toNat_le]
  exact Nat.le_trans h.2 (by decide)

namespace Decimal

theorem utf8ByteSize_text_le {n k : Nat} (hk : 0 < k) (h : n < 10 ^ k) : (text n).utf8ByteSize ≤ k := by
  have hsize : ∀ c ∈ Nat.toDigits 10 n, c.utf8Size = 1 := fun c hc =>
    utf8Size_of_isDigit (Nat.isDigit_of_mem_toDigits (by decide) (by decide) hc)
  rw [text, utf8ByteSize_ofList_of_utf8Size hsize]
  exact (Nat.length_toDigits_le_iff (by decide) hk).2 h

theorem utf8ByteSize_text_of_uint32 (n : UInt32) : (text n.toNat).utf8ByteSize ≤ 10 :=
  utf8ByteSize_text_le (by decide) (Nat.lt_trans n.toNat_lt (by decide))

end Decimal

/-- **The header that asks for a range is written whole**: its room is larger than any two numbers of 32 bits need. -/
theorem ByteRange.header_eq (range : ByteRange) :
    range.header = "bytes=" ++ Decimal.text range.first.toNat ++ "-" ++ Decimal.text range.last.toNat := by
  have hfirst := Decimal.utf8ByteSize_text_of_uint32 range.first
  have hlast := Decimal.utf8ByteSize_text_of_uint32 range.last
  have hunit : "bytes=".utf8ByteSize = 6 := by decide
  have hdash : "-".utf8ByteSize = 1 := by decide
  rw [header, headerValue, Bounded.text_fill_of_fits]
  · simp [Bounded.empty, String.append_assoc]
  · simp only [Bounded.empty, String.join_cons, String.join_nil, String.utf8ByteSize_append, String.utf8ByteSize_empty]
    omega

def ByteRange.sent (range : ByteRange) (total : Nat) : String :=
  "bytes " ++ Decimal.text range.first.toNat ++ "-" ++ Decimal.text range.last.toNat ++ "/" ++ Decimal.text total

theorem ByteRange.utf8ByteSize_sent_le {range : ByteRange} {total : Nat} (hfirst : range.first.toNat < 100000000)
    (hlast : range.last.toNat < 100000000) (htotal : total < 100000000) : (range.sent total).utf8ByteSize ≤ 32 := by
  have h₁ := Decimal.utf8ByteSize_text_le (k := 8) (by decide) hfirst
  have h₂ := Decimal.utf8ByteSize_text_le (k := 8) (by decide) hlast
  have h₃ := Decimal.utf8ByteSize_text_le (k := 8) (by decide) htotal
  have hbytes : "bytes ".utf8ByteSize = 6 := by decide
  have hdash : "-".utf8ByteSize = 1 := by decide
  have hslash : "/".utf8ByteSize = 1 := by decide
  simp only [sent, String.utf8ByteSize_append]
  omega

theorem ImageSize.ofContentRange_sent {total : Nat} (h : total < 100000000) :
    ofContentRange (ByteRange.firstOctet.sent total) = .ok (UInt32.ofNat total) := by
  have hsent : ByteRange.firstOctet.sent total = "bytes 0-0/" ++ Decimal.text total := rfl
  have hlead : "bytes 0-0/".utf8ByteSize = 10 := by decide
  have hsize : ("bytes 0-0/" ++ Decimal.text total).utf8ByteSize ≤ 18 := by
    have := Decimal.utf8ByteSize_text_le (k := 8) (by decide) h
    rw [String.utf8ByteSize_append]
    omega
  have hlist : ("bytes 0-0/" ++ Decimal.text total).toList = lead ++ (Decimal.text total).toList := by
    rw [String.toList_append]
    rfl
  have hfits : total < UInt32.size := Nat.lt_trans h (by decide)
  unfold ofContentRange
  rw [hsent, if_neg (by omega), hlist, List.drop_left, Decimal.value?_text]
  rw [if_neg (by simp)]
  simp only []
  rw [if_pos hfits]

end Firmware
