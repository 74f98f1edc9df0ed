import Mathlib.Algebra.GroupWithZero.Nat
import Firmware.Image.Plan
/-!
# Plan — what a plan hands out

A step hands out the range that starts where the plan stands, as long as a chunk or as what is left, and moves the plan
past it.  So the ranges of a plan follow one another (`ranges_pairwise`) and none reaches past the image.
-/
namespace Firmware.ChunkPlan

/-- What one step hands out, in numbers: no sum wraps, because nothing reaches past the total. -/
structure Step (p : ChunkPlan) (r : ByteRange) (q : ChunkPlan) : Prop where
  first : r.first = p.next
  size : r.size.toNat = min (p.total.toNat - p.next.toNat) p.chunk.toNat
  size_pos : 0 < r.size.toNat
  last : r.last.toNat + 1 = p.next.toNat + r.size.toNat
  inside : r.last.toNat < p.total.toNat
  total : q.total = p.total
  chunk : q.chunk = p.chunk
  next : q.next.toNat = p.next.toNat + r.size.toNat

theorem step_of_step? {p q : ChunkPlan} {r : ByteRange} (h : p.step? = some (r, q)) : p.Step r q := by
  unfold step? at h
  split at h
  · cases h
  rename_i hlt
  rw [UInt32.le_iff_toNat_le] at hlt
  have hpos := UInt32.lt_iff_toNat_lt.1 p.chunk_pos
  simp only [UInt32.toNat_zero] at hpos
  have htotal := p.total.toNat_lt
  have hleft : (p.total - p.next).toNat = p.total.toNat - p.next.toNat :=
    UInt32.toNat_sub_of_le _ _ (UInt32.le_iff_toNat_le.2 (by omega))
  simp only [Option.some.injEq, Prod.mk.injEq] at h
  obtain ⟨rfl, rfl⟩ := h
  generalize hsize : (if p.total - p.next ≤ p.chunk then p.total - p.next else p.chunk) = size
  have hmin : size.toNat = min (p.total.toNat - p.next.toNat) p.chunk.toNat := by
    rw [← hsize]
    split
    · rename_i hle
      rw [UInt32.le_iff_toNat_le] at hle
      omega
    · rename_i hgt
      rw [UInt32.le_iff_toNat_le] at hgt
      omega
  have hend : (p.next + size).toNat = p.next.toNat + size.toNat := by
    rw [UInt32.toNat_add, Nat.mod_eq_of_lt (by omega)]
  have hlast : (p.next + size - 1).toNat = p.next.toNat + size.toNat - 1 := by
    rw [UInt32.toNat_sub_of_le _ _ (UInt32.le_iff_toNat_le.2 (by rw [UInt32.toNat_one]; omega)), hend, UInt32.toNat_one]
  have hback : (p.next + size - 1 - p.next).toNat = size.toNat - 1 := by
    rw [UInt32.toNat_sub_of_le _ _ (UInt32.le_iff_toNat_le.2 (by omega)), hlast]
    omega
  have hsz : (⟨p.next, p.next + size - 1⟩ : ByteRange).size.toNat = size.toNat := by
    rw [ByteRange.size, UInt32.toNat_add, hback, UInt32.toNat_one, Nat.mod_eq_of_lt (by omega)]
    omega
  exact
    { first := rfl
      size := by omega
      size_pos := by omega
      last := by dsimp only; omega
      inside := by dsimp only; omega
      total := rfl
      chunk := rfl
      next := by rw [hsz]; exact hend }

theorem total_le_next_of_step? {p : ChunkPlan} (h : p.step? = none) : p.total.toNat ≤ p.next.toNat := by
  unfold step? at h
  split at h
  · exact UInt32.le_iff_toNat_le.1 ‹_›
  · cases h

theorem ranges_of_none {p : ChunkPlan} (h : p.step? = none) : p.ranges = [] := by
  rw [ranges]
  split
  · rfl
  · simp_all

theorem ranges_of_some {p q : ChunkPlan} {r : ByteRange} (h : p.step? = some (r, q)) : p.ranges = r :: q.ranges := by
  rw [ranges]
  split
  · simp_all
  · rename_i h'
    rw [h] at h'
    cases h'
    rfl

theorem next_le_first (p : ChunkPlan) : ∀ r ∈ p.ranges, p.next.toNat ≤ r.first.toNat := by
  induction p using ranges.induct with
  | case1 p h => simp [ranges_of_none h]
  | case2 p r q h ih =>
    have hstep := step_of_step? h
    rw [ranges_of_some h]
    refine List.forall_mem_cons.2 ⟨Nat.le_of_eq (by rw [hstep.first]), fun s hs => ?_⟩
    have := ih s hs
    have := hstep.next
    omega

/-- **The ranges of a plan stand in order and do not overlap.** -/
theorem ranges_pairwise (p : ChunkPlan) : p.ranges.Pairwise fun r s => r.last < s.first := by
  induction p using ranges.induct with
  | case1 p h => simp [ranges_of_none h]
  | case2 p r q h ih =>
    have hstep := step_of_step? h
    rw [ranges_of_some h]
    refine List.pairwise_cons.2 ⟨fun s hs => ?_, ih⟩
    rw [UInt32.lt_iff_toNat_lt]
    have := next_le_first q s hs
    have := hstep.next
    have := hstep.last
    omega

theorem firsts_nodup (p : ChunkPlan) : (p.ranges.map ByteRange.first).Nodup := by
  induction p using ranges.induct with
  | case1 p h => simp [ranges_of_none h]
  | case2 p r q h ih =>
    have hstep := step_of_step? h
    rw [ranges_of_some h, List.map_cons, List.nodup_cons]
    refine ⟨fun hmem => ?_, ih⟩
    obtain ⟨s, hs, hfirst⟩ := List.mem_map.1 hmem
    have hle := next_le_first q s hs
    have hnext := hstep.next
    have hpos := hstep.size_pos
    rw [hfirst, hstep.first] at hle
    omega

theorem ranges_nodup (p : ChunkPlan) : p.ranges.Nodup :=
  List.Pairwise.of_map ByteRange.first (fun _ _ hne heq => hne (congrArg ByteRange.first heq)) (firsts_nodup p)

theorem next_lt_of_mem {p : ChunkPlan} {r : ByteRange} (h : r ∈ p.ranges) : p.next.toNat < p.total.toNat := by
  cases hstep : p.step? with
  | none =>
    rw [ranges_of_none hstep] at h
    cases h
  | some handed =>
    have step := step_of_step? hstep
    have hinside := step.inside
    have hlast := step.last
    have hpos := step.size_pos
    omega

theorem first_lt_of_mem (p : ChunkPlan) : ∀ r ∈ p.ranges, r.first < p.total := by
  induction p using ranges.induct with
  | case1 p h => simp [ranges_of_none h]
  | case2 p r q h ih =>
    have step := step_of_step? h
    rw [ranges_of_some h]
    refine List.forall_mem_cons.2 ⟨?_, fun s hs => step.total ▸ ih s hs⟩
    rw [step.first, UInt32.lt_iff_toNat_lt]
    exact next_lt_of_mem (r := r) (by simp [ranges_of_some h])

/-- **Every range starts so many chunks after the first.** -/
theorem first_of_getElem? (p : ChunkPlan) {r : ByteRange} :
    ∀ {i : Nat}, p.ranges[i]? = some r → r.first.toNat = p.next.toNat + i * p.chunk.toNat := by
  induction p using ranges.induct with
  | case1 p h => simp [ranges_of_none h]
  | case2 p s q h ih =>
    have step := step_of_step? h
    rw [ranges_of_some h]
    intro i hr
    cases i with
    | zero =>
      obtain rfl := Option.some.inj hr
      rw [step.first]
      omega
    | succ i =>
      -- a range that another one follows is as long as a chunk
      have hrest := next_lt_of_mem (List.mem_of_getElem? hr)
      have hsize := step.size
      have hnext := step.next
      rw [step.total] at hrest
      rw [ih hr, step.chunk, hnext, Nat.succ_mul]
      omega

/-- **The ranges before one have all the octets before it.** -/
theorem sum_take_of_getElem? (p : ChunkPlan) {r : ByteRange} :
    ∀ {i : Nat}, p.ranges[i]? = some r →
      p.next.toNat + ((p.ranges.take i).map fun s => s.size.toNat).sum = r.first.toNat := by
  induction p using ranges.induct with
  | case1 p h => simp [ranges_of_none h]
  | case2 p s q h ih =>
    have step := step_of_step? h
    rw [ranges_of_some h]
    intro i hr
    cases i with
    | zero =>
      obtain rfl := Option.some.inj hr
      rw [step.first]
      rfl
    | succ i =>
      rw [List.take_succ_cons, List.map_cons, List.sum_cons, ← ih hr, step.next, Nat.add_assoc]

theorem length_ranges (p : ChunkPlan) :
    p.ranges.length = (p.total.toNat - p.next.toNat + (p.chunk.toNat - 1)) / p.chunk.toNat := by
  have hpos (p : ChunkPlan) : 0 < p.chunk.toNat := UInt32.lt_iff_toNat_lt.1 p.chunk_pos
  induction p using ranges.induct with
  | case1 p h =>
    have hend := total_le_next_of_step? h
    have hchunk := hpos p
    rw [ranges_of_none h, Nat.div_eq_of_lt (by omega)]
    rfl
  | case2 p r q h ih =>
    have hstep := step_of_step? h
    have hchunk := hpos p
    have hsize := hstep.size
    have hsize_pos := hstep.size_pos
    rw [ranges_of_some h, List.length_cons, ih, hstep.total, hstep.chunk, hstep.next, ← Nat.add_div_right _ hchunk]
    by_cases hlast : p.total.toNat - p.next.toNat ≤ p.chunk.toNat
    · have hone : (p.total.toNat - p.next.toNat + (p.chunk.toNat - 1)) / p.chunk.toNat = 1 :=
        Nat.div_eq_of_lt_le (by omega) (by omega)
      rw [hone]
      exact Nat.div_eq_of_lt_le (by omega) (by omega)
    · congr 1
      omega

theorem count_toNat (p : ChunkPlan) : p.count.toNat = (p.total.toNat + (p.chunk.toNat - 1)) / p.chunk.toNat := by
  have hpos : 0 < p.chunk.toNat := UInt32.lt_iff_toNat_lt.1 p.chunk_pos
  have htotal := p.total.toNat_lt
  have hdivide := Nat.div_add_mod p.total.toNat p.chunk.toNat
  have hmod := Nat.mod_lt p.total.toNat hpos
  have hquotient : p.total.toNat / p.chunk.toNat ≤ p.chunk.toNat * (p.total.toNat / p.chunk.toNat) :=
    Nat.le_mul_of_pos_left _ hpos
  unfold count
  by_cases heven : p.total % p.chunk = 0
  · have hzero : p.total.toNat % p.chunk.toNat = 0 := by
      rw [← UInt32.toNat_mod, heven]
      rfl
    rw [if_pos heven, UInt32.add_zero, UInt32.toNat_div]
    refine (Nat.div_eq_of_lt_le ?_ ?_).symm
    · rw [Nat.mul_comm]
      omega
    · rw [Nat.succ_mul, Nat.mul_comm]
      omega
  · have hrest : p.total.toNat % p.chunk.toNat ≠ 0 := by
      rw [← UInt32.toNat_mod]
      exact fun hzero => heven (UInt32.toNat_inj.1 hzero)
    rw [if_neg heven, UInt32.toNat_add, UInt32.toNat_div, UInt32.toNat_one, Nat.mod_eq_of_lt (by omega)]
    refine (Nat.div_eq_of_lt_le ?_ ?_).symm
    · rw [Nat.succ_mul, Nat.mul_comm]
      omega
    · rw [Nat.succ_mul, Nat.succ_mul, Nat.mul_comm]
      omega

/-- **A whole plan has as many ranges as it counts.** -/
theorem length_ranges_ofSize (total chunk : UInt32) :
    (ofSize total chunk).ranges.length = (ofSize total chunk).count.toNat := by
  have hstart : (ofSize total chunk).next.toNat = 0 := rfl
  rw [length_ranges, count_toNat, hstart, Nat.sub_zero]

theorem length_ranges_lt (total chunk : UInt32) : (ofSize total chunk).ranges.length < UInt32.size := by
  rw [length_ranges_ofSize]
  exact UInt32.toNat_lt_size _

theorem ranges_ofSize (total chunk : UInt32) :
    (ofSize total chunk).ranges = (ofSize total chunk).firstRanges (ofSize total chunk).count.toNat := by
  rw [firstRanges_eq_take, ← length_ranges_ofSize, List.take_length]

example : (ofSize 10 4).ranges = [⟨0, 3⟩, ⟨4, 7⟩, ⟨8, 9⟩] := by
  rw [ranges_ofSize]
  decide

end Firmware.ChunkPlan
