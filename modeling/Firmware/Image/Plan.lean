import Firmware.Image.Range
/-!
# Plan — the ranges that an image is fetched in

A `ChunkPlan` hands out consecutive ranges of a fixed size until the image is covered; the last one may be shorter.
`step_remaining` says that every range handed out leaves less to fetch, so that going through a plan ends.
-/
namespace Firmware

structure ChunkPlan where
  total : UInt32
  chunk : UInt32
  next : UInt32 := 0
  chunk_pos : 0 < chunk

namespace ChunkPlan

/-- The plan for `total` octets in pieces of `chunk`; pieces of no octets count as pieces of one. -/
def ofSize (total chunk : UInt32) : ChunkPlan :=
  { total
    chunk := if chunk = 0 then 1 else chunk
    chunk_pos := by
      split
      · decide
      · exact UInt32.pos_iff_ne_zero.2 ‹_› }

def count (p : ChunkPlan) : UInt32 := p.total / p.chunk + (if p.total % p.chunk = 0 then 0 else 1)

def step? (p : ChunkPlan) : Option (ByteRange × ChunkPlan) :=
  if p.total ≤ p.next then none
  else
    let left := p.total - p.next
    let size := if left ≤ p.chunk then left else p.chunk
    some (⟨p.next, p.next + size - 1⟩, { p with next := p.next + size })

def remaining (p : ChunkPlan) : Nat := p.total.toNat - p.next.toNat

/-- **Every range handed out leaves less.** -/
theorem step_remaining {p q : ChunkPlan} {r : ByteRange} (h : p.step? = some (r, q)) : q.remaining < p.remaining := by
  unfold step? at h
  split at h
  · cases h
  · rename_i hlt
    simp only [Option.some.injEq, Prod.mk.injEq] at h
    obtain ⟨-, rfl⟩ := h
    have hpos := UInt32.lt_iff_toNat_lt.1 p.chunk_pos
    rw [UInt32.le_iff_toNat_le] at hlt
    have hsub : (p.total - p.next).toNat = p.total.toNat - p.next.toNat :=
      UInt32.toNat_sub_of_le _ _ (UInt32.le_iff_toNat_le.2 (by omega))
    have htotal := p.total.toNat_lt
    simp only [remaining]
    split
    · rw [UInt32.toNat_add, hsub, Nat.mod_eq_of_lt (by omega)]
      omega
    · rename_i hgt
      rw [UInt32.le_iff_toNat_le, hsub] at hgt
      rw [UInt32.toNat_add, Nat.mod_eq_of_lt (by omega)]
      simp only [UInt32.toNat_zero] at hpos
      omega

def ranges (p : ChunkPlan) : List ByteRange :=
  match _h : p.step? with
  | none => []
  | some (r, q) => r :: q.ranges
termination_by p.remaining
decreasing_by exact step_remaining ‹_›

def firstRanges (p : ChunkPlan) : (limit : Nat) → List ByteRange
  | 0 => []
  | limit + 1 =>
    match p.step? with
    | none => []
    | some (r, q) => r :: q.firstRanges limit

theorem firstRanges_eq_take (p : ChunkPlan) (limit : Nat) : p.firstRanges limit = p.ranges.take limit := by
  induction limit generalizing p with
  | zero => simp [firstRanges]
  | succ limit ih =>
    rw [ranges, firstRanges]
    cases h : p.step? with
    | none => simp
    | some rq => simp [ih]

end ChunkPlan
end Firmware
