import Mathlib.Algebra.Order.Floor.Div
import Firmware.Proofs.Plan
import Firmware.Proofs.Scanning
import Firmware.Proofs.Size
/-!
# Tiling — the ranges of a plan tile the image

Going through a plan hands out as many ranges as it counts: one behind the other from the first octet of the image to
its last, each as long as a chunk but for the last, which may be shorter (`tiles_image`).  No step leaves the numbers
of 32 bits, and the header of each range is written whole, so that the range can be read back from it.
-/
namespace Firmware

/-! ## Numbers of 32 bits -/

def checkedAdd? (a b : UInt32) : Option UInt32 := if a.toNat + b.toNat < UInt32.size then some (a + b) else none

def checkedSub? (a b : UInt32) : Option UInt32 := if b.toNat ≤ a.toNat then some (a - b) else none

theorem checkedAdd?_eq_some {a b c : UInt32} : checkedAdd? a b = some c ↔ c.toNat = a.toNat + b.toNat := by
  have hc := c.toNat_lt_size
  unfold checkedAdd?
  split
  · rename_i hroom
    have hsum : (a + b).toNat = a.toNat + b.toNat := by
      rw [UInt32.toNat_add, Nat.mod_eq_of_lt (by simpa only [UInt32.size] using hroom)]
    rw [Option.some.injEq, ← UInt32.toNat_inj, hsum]
    exact eq_comm
  · simp only [reduceCtorEq, false_iff]
    omega

theorem checkedSub?_eq_some {a b c : UInt32} : checkedSub? a b = some c ↔ c.toNat + b.toNat = a.toNat := by
  unfold checkedSub?
  split
  · rename_i hle
    have hdifference : (a - b).toNat = a.toNat - b.toNat :=
      UInt32.toNat_sub_of_le _ _ (UInt32.le_iff_toNat_le.2 hle)
    rw [Option.some.injEq, ← UInt32.toNat_inj, hdifference]
    omega
  · simp only [reduceCtorEq, false_iff]
    omega

namespace ByteRange

/-- The number of octets, if no operation leaves the numbers of 32 bits. -/
def checkedSize? (r : ByteRange) : Option UInt32 := do checkedAdd? (← checkedSub? r.last r.first) 1

/-! ## Headers -/

/-- The range that a `Range` header asks for: the numbers after `bytes=`, with a dash between them. -/
def ofHeader? (value : String) : Option ByteRange :=
  match Scan.splitOnce ['='] value.toList with
  | none => none
  | some (unit, range) =>
    match Scan.splitOnce ['-'] range with
    | none => none
    | some (first, last) =>
      match (Decimal.value? first).filter (· < UInt32.size), (Decimal.value? last).filter (· < UInt32.size) with
      | some first, some last => if unit = "bytes".toList then some ⟨.ofNat first, .ofNat last⟩ else none
      | _, _ => none

theorem not_mem_text {c : Char} (h : c.isDigit = false) (n : Nat) : c ∉ (Decimal.text n).toList := fun hmem => by
  rw [Decimal.isDigit_of_mem_text hmem] at h
  cases h

/-- **A range is read back from its header.** -/
theorem ofHeader?_header (r : ByteRange) : ofHeader? r.header = some r := by
  have hvalue (n : UInt32) :
      (Decimal.value? (Decimal.text n.toNat).toList).filter (· < UInt32.size) = some n.toNat := by
    rw [Decimal.value?_text, Option.filter_some_pos]
    exact decide_eq_true n.toNat_lt_size
  have hunit : Scan.splitOnce ['='] r.header.toList =
      some ("bytes".toList, (Decimal.text r.first.toNat).toList ++ '-' :: (Decimal.text r.last.toNat).toList) := by
    have hchars : r.header.toList = "bytes".toList ++
        '=' :: ((Decimal.text r.first.toNat).toList ++ '-' :: (Decimal.text r.last.toNat).toList) := by
      simp [header_eq]
    rw [hchars]
    exact Scan.splitOnce_singleton (by decide) _
  have hdash := Scan.splitOnce_singleton (not_mem_text (c := '-') rfl r.first.toNat) (Decimal.text r.last.toNat).toList
  simp only [ofHeader?, hunit, hdash, hvalue, if_true, UInt32.ofNat_toNat]

end ByteRange

namespace ChunkPlan

/-! ## Steps -/

def checkedStep? (p : ChunkPlan) : Option (Option (ByteRange × ChunkPlan)) :=
  if p.total ≤ p.next then some none
  else do
    let left ← checkedSub? p.total p.next
    let size := if left ≤ p.chunk then left else p.chunk
    let next ← checkedAdd? p.next size
    let last ← checkedSub? next 1
    return some (⟨p.next, last⟩, { p with next })

theorem checkedStep?_eq (p : ChunkPlan) : p.checkedStep? = some p.step? := by
  unfold checkedStep? step?
  split
  · rfl
  rename_i hlt
  rw [UInt32.le_iff_toNat_le] at hlt
  have hleft : (p.total - p.next).toNat = p.total.toNat - p.next.toNat :=
    UInt32.toNat_sub_of_le _ _ (UInt32.le_iff_toNat_le.2 (by omega))
  have hpos := UInt32.lt_iff_toNat_lt.1 p.chunk_pos
  simp only [UInt32.toNat_zero] at hpos
  generalize hsize : (if p.total - p.next ≤ p.chunk then p.total - p.next else p.chunk) = size
  -- a chunk is no longer than what is left, so its end is within the total
  have hbounds : 0 < size.toNat ∧ size.toNat ≤ p.total.toNat - p.next.toNat := by
    rw [← hsize]
    split
    · omega
    · rename_i hlong
      rw [UInt32.le_iff_toNat_le] at hlong
      omega
  have htotal := p.total.toNat_lt
  have hend : (p.next + size).toNat = p.next.toNat + size.toNat := by
    rw [UInt32.toNat_add, Nat.mod_eq_of_lt (by omega)]
  have hlast : (p.next + size - 1).toNat + 1 = (p.next + size).toNat := by
    rw [UInt32.toNat_sub_of_le _ _ (UInt32.le_iff_toNat_le.2 (by rw [UInt32.toNat_one]; omega)), UInt32.toNat_one]
    omega
  have hsub : checkedSub? p.total p.next = some (p.total - p.next) := checkedSub?_eq_some.2 (by omega)
  have hadd : checkedAdd? p.next size = some (p.next + size) := checkedAdd?_eq_some.2 hend
  have hone : checkedSub? (p.next + size) 1 = some (p.next + size - 1) := checkedSub?_eq_some.2 hlast
  simp only [hsub, Option.bind_eq_bind, Option.bind_some, hsize, hadd, hone]
  rfl

theorem Step.checkedSize?_eq {p q : ChunkPlan} {r : ByteRange} (h : p.Step r q) : r.checkedSize? = some r.size := by
  have hsize := h.size_pos
  have hlast := h.last
  have hfirst : r.first.toNat = p.next.toNat := congrArg UInt32.toNat h.first
  have hle : r.first ≤ r.last := UInt32.le_iff_toNat_le.2 (by omega)
  have hdifference : (r.last - r.first).toNat = r.last.toNat - r.first.toNat := UInt32.toNat_sub_of_le _ _ hle
  have hsub : checkedSub? r.last r.first = some (r.last - r.first) := checkedSub?_eq_some.2 (by omega)
  have hadd : checkedAdd? (r.last - r.first) 1 = some (r.last - r.first + 1) :=
    checkedAdd?_eq_some.2 (by rw [UInt32.toNat_one]; change r.size.toNat = _; omega)
  simp only [ByteRange.checkedSize?, hsub, Option.bind_eq_bind, Option.bind_some, hadd]
  rfl

theorem checkedSize?_of_mem (p : ChunkPlan) : ∀ r ∈ p.ranges, r.checkedSize? = some r.size := by
  induction p using ranges.induct with
  | case1 p h => simp [ranges_of_none h]
  | case2 p r q h ih =>
    rw [ranges_of_some h]
    exact List.forall_mem_cons.2 ⟨(step_of_step? h).checkedSize?_eq, ih⟩

/-! ## Tilings -/

/-- The ranges take the octets from `start` up to `stop` one after the other: all but the last have `chunk` octets, the
last has one at least and no more than `chunk`. -/
structure Tiling (chunk start stop : Nat) (ranges : List ByteRange) : Prop where
  empty : ranges = [] ↔ start = stop
  begins : ∀ r, ranges.head? = some r → r.first.toNat = start
  follows : ∀ before r s after, ranges = before ++ r :: s :: after → s.first.toNat = r.last.toNat + 1
  full : ∀ before r s after, ranges = before ++ r :: s :: after → r.size.toNat = chunk
  rest : ∀ r, ranges.getLast? = some r → 1 ≤ r.size.toNat ∧ r.size.toNat ≤ chunk
  ends : ∀ r, ranges.getLast? = some r → r.last.toNat + 1 = stop

theorem tiling_nil (chunk start : Nat) : Tiling chunk start start [] where
  empty := ⟨fun _ => rfl, fun _ => rfl⟩
  begins := nofun
  follows before := by simp
  full before := by simp
  rest := nofun
  ends := nofun

theorem Tiling.cons {chunk start middle stop : Nat} {r : ByteRange} {ranges : List ByteRange}
    (h : Tiling chunk middle stop ranges) (hfirst : r.first.toNat = start) (hlast : r.last.toNat + 1 = middle)
    (hpos : 1 ≤ r.size.toNat) (hsize : r.size.toNat ≤ chunk) (hbefore : start < stop)
    (hfull : middle ≠ stop → r.size.toNat = chunk) : Tiling chunk start stop (r :: ranges) where
  empty := by simp [Nat.ne_of_lt hbefore]
  begins r' hhead := by
    obtain rfl := Option.some.inj hhead
    exact hfirst
  follows before r' s after hsplit := by
    cases before with
    | nil =>
      obtain ⟨rfl, rfl⟩ := List.cons.inj hsplit
      rw [h.begins s rfl, hlast]
    | cons _ before => exact h.follows before r' s after (List.cons.inj hsplit).2
  full before r' s after hsplit := by
    cases before with
    | nil =>
      obtain ⟨rfl, rfl⟩ := List.cons.inj hsplit
      exact hfull fun hend => List.cons_ne_nil s after (h.empty.2 hend)
    | cons _ before => exact h.full before r' s after (List.cons.inj hsplit).2
  rest r' hr' := by
    cases ranges with
    | nil =>
      obtain rfl := Option.some.inj hr'
      exact ⟨hpos, hsize⟩
    | cons s ranges => exact h.rest r' hr'
  ends r' hr' := by
    cases ranges with
    | nil =>
      obtain rfl := Option.some.inj hr'
      exact hlast.trans (h.empty.1 rfl)
    | cons s ranges => exact h.ends r' hr'

/-- **The ranges of a plan tile what it still has to hand out.** -/
theorem tiling_ranges (p : ChunkPlan) (hnext : p.next.toNat ≤ p.total.toNat) :
    Tiling p.chunk.toNat p.next.toNat p.total.toNat p.ranges := by
  induction p using ranges.induct with
  | case1 p h =>
    have hend : p.next.toNat = p.total.toNat := Nat.le_antisymm hnext (total_le_next_of_step? h)
    rw [ranges_of_none h, hend]
    exact tiling_nil _ _
  | case2 p r q h ih =>
    obtain ⟨hfirst, hsize, hpos, hlast, hinside, htotal, hchunk, hq⟩ := step_of_step? h
    have htiling := ih (by rw [hq, htotal]; omega)
    rw [htotal, hchunk] at htiling
    rw [ranges_of_some h]
    exact htiling.cons (congrArg UInt32.toNat hfirst) (by omega) hpos (by omega) (by omega) fun hrest => by omega

/-! ## Whole plans -/

theorem ofSize_chunk (total chunk : UInt32) : (ofSize total chunk).chunk.toNat = max 1 chunk.toNat := by
  simp only [ofSize]
  split
  · rename_i hzero
    rw [hzero]
    rfl
  · rename_i hne
    have hpos : 0 < chunk.toNat := Nat.pos_of_ne_zero fun h0 => hne (UInt32.toNat_inj.1 h0)
    omega

/-- **The ranges of a plan tile the image**, as many as the plan counts: the size of the image divided by the size of
a chunk, rounded up.  However far the plan is followed, nothing else is handed out, and no operation leaves the numbers
of 32 bits.  The header of each range is its whole text, and the range is read back from it. -/
theorem tiles_image (total chunk : UInt32) :
    (ofSize total chunk).ranges.length = (ofSize total chunk).count.toNat ∧
    (ofSize total chunk).count.toNat = total.toNat ⌈/⌉ max 1 chunk.toNat ∧
    (∀ limit, (ofSize total chunk).firstRanges limit = (ofSize total chunk).ranges.take limit) ∧
    Tiling (max 1 chunk.toNat) 0 total.toNat (ofSize total chunk).ranges ∧
    (∀ p : ChunkPlan, p.checkedStep? = some p.step?) ∧
    ∀ r ∈ (ofSize total chunk).ranges, r.checkedSize? = some r.size ∧
      r.headerValue.text = "bytes=" ++ Decimal.text r.first.toNat ++ "-" ++ Decimal.text r.last.toNat ∧
      ByteRange.ofHeader? r.headerValue.text = some r := by
  have hchunk := ofSize_chunk total chunk
  refine ⟨length_ranges_ofSize total chunk, ?_, firstRanges_eq_take _, ?_, checkedStep?_eq, fun r hr => ?_⟩
  · have htotal : (ofSize total chunk).total.toNat = total.toNat := rfl
    rw [count_toNat, htotal, hchunk, Nat.ceilDiv_eq_add_pred_div, Nat.add_sub_assoc (Nat.le_max_left _ _)]
  · rw [← hchunk]
    exact tiling_ranges _ (Nat.zero_le _)
  · exact ⟨checkedSize?_of_mem _ r hr, r.header_eq, r.ofHeader?_header⟩

theorem lastOfTen_tiles :
    (⟨8, 9⟩ : ByteRange) ∈ (ofSize 10 4).ranges ∧ (⟨8, 9⟩ : ByteRange).checkedSize? = some 2 ∧
      ByteRange.ofHeader? (⟨8, 9⟩ : ByteRange).headerValue.text = some ⟨8, 9⟩ := by
  have hmem : (⟨8, 9⟩ : ByteRange) ∈ (ofSize 10 4).ranges := by
    rw [ranges_ofSize]
    decide
  obtain ⟨-, -, -, -, -, hranges⟩ := tiles_image 10 4
  obtain ⟨hsize, -, hread⟩ := hranges _ hmem
  exact ⟨hmem, hsize, hread⟩

end ChunkPlan
end Firmware
