import Firmware.Flash.Faulty
import Firmware.Transfer
/-!
# Refusal — blocks that are refused unread

Whether a block fits is told by its offset and its length.  So a block that is refused need not be there, which counts
where it has more octets than the memory holds.
-/
namespace Firmware

def Partition.refusal? (p : Partition) (offset : UInt32) (length : Nat) : Option FlashError :=
  match p.file with
  | none => some .noActiveFile
  | some file =>
    if file.closed then some .noActiveFile
    else if offset ≠ file.written ∨ file.size.toNat < offset.toNat + length then some .writeFailed
    else none

def FaultyPartition.refusal? (f : FaultyPartition) (offset : UInt32) (length : Nat) : Option FlashError :=
  match f.writes.head?.join with
  | some (.fail e) => some e
  | some (.cut limit) => f.partition.refusal? offset (min limit length)
  | none => f.partition.refusal? offset length

/-- The error that a transfer answers to a block of this length unread, if it does, and the device after it.  The call
to the flash device is left to be noted. -/
def Transfer.refused? {C : Type} (offset : UInt32) (length : Nat) (d : Device C FaultyPartition) :
    Option (UpdateError × Device C FaultyPartition) :=
  match d.transfer.phase with
  | .receiving expected written =>
    if offset ≠ written then some (.nonSequential written offset, d)
    else if expected < saturatingAdd written (UInt32.ofNat length) then some (.overflow, d)
    else
      (d.flash.refusal? offset length).map fun e =>
        (.flash e,
          { d with
            flash := { d.flash with writes := d.flash.writes.tail }
            transfer := { d.transfer with phase := .failed } })
  | .idle | .validating | .ready | .failed => some (.notReceiving, d)

theorem Partition.write_of_refusal {p : Partition} {offset : UInt32} {block : Bytes} {e : FlashError}
    (h : p.refusal? offset block.length = some e) : p.write offset block = (.error e, p) := by
  unfold refusal? at h
  unfold write
  cases hfile : p.file with
  | none =>
    simp only [hfile] at h
    cases h
    rfl
  | some file =>
    simp only [hfile] at h ⊢
    split at h
    · rename_i hclosed
      cases h
      rw [if_pos hclosed]
    · rename_i hopen
      rw [if_neg hopen]
      split at h
      · rename_i hmisfit
        cases h
        rw [if_pos hmisfit]
      · cases h

theorem FaultyPartition.write_of_refusal {f : FaultyPartition} {offset : UInt32} {block : Bytes} {e : FlashError}
    (h : f.refusal? offset block.length = some e) :
    f.write offset block = (.error e, { f with writes := f.writes.tail }) := by
  unfold refusal? at h
  unfold write
  cases hfault : f.writes.head?.join with
  | none =>
    simp only [hfault] at h
    simp only [Partition.write_of_refusal h]
  | some fault =>
    cases fault with
    | fail e' =>
      simp only [hfault] at h
      cases h
      rfl
    | cut limit =>
      simp only [hfault, ← List.length_take] at h
      simp only [Partition.write_of_refusal h]

end Firmware
