import Firmware.Digest.Sha256
import Firmware.Flash.Device
/-!
# Partition — an update partition in memory

The partition holds the octets written to the receive file.  While a signed file is written its octets are hashed; the
digest is compared when the file is closed.  The one image state serves the running image and the received one: marking
an image rejected discards the receive file when one is open, and asks for a rollback of the running image when none is.
There is always memory for a receive file that the partition has room for.
-/
namespace Firmware

structure OpenFile where
  size : UInt32
  written : UInt32 := 0
  /-- The digest under way; none when the file is unsigned or the digest has been compared. -/
  hasher : Option Sha256.Hasher := none
  closed : Bool := false
deriving DecidableEq, Repr

structure Partition where
  capacity : Nat := 4194304
  state : ImageState := .unknown
  file : Option OpenFile := none
  slot : ByteArray := .empty
  activated : Bool := false
  rollbackRequested : Bool := false

namespace Partition

def image (p : Partition) : Bytes := p.slot.data.toList

def discard (p : Partition) : Partition := { p with slot := .empty, file := none }

def create (p : Partition) (file : ReceiveFile) : Except FlashError Unit × Partition :=
  let p := if p.file.isSome then p.discard else p
  if p.capacity < file.size.toNat then (.error .fileTooLarge, p)
  else
    (.ok (),
      { p with
        slot := .empty
        activated := false
        state := .unknown
        file := some { size := file.size, hasher := if file.signature.isSome then some {} else none } })

/-- Takes as much of a block as there is room for. -/
def write (p : Partition) (offset : UInt32) (block : Bytes) : Except FlashError Nat × Partition :=
  match p.file with
  | none => (.error .noActiveFile, p)
  | some file =>
    if file.closed then (.error .noActiveFile, p)
    else if offset ≠ file.written ∨ file.size.toNat < offset.toNat + block.length then (.error .writeFailed, p)
    else
      let taken := block.take (p.capacity - p.slot.size)
      let file :=
        { file with
          hasher := file.hasher.map (·.absorb taken)
          written := file.written + UInt32.ofNat taken.length }
      (.ok taken.length, { p with slot := p.slot ++ taken.toByteArray, file := some file })

/-- Compares the digest of a file with a signature.  The digest can be compared only once. -/
def verify (file : OpenFile) (signature : Signature) : Except FlashError Unit × OpenFile :=
  if signature.certPath.isEmpty then (.error .badSignerCertificate, file)
  else
    match file.hasher with
    | none => (.error .signatureCheckFailed, file)
    | some hasher =>
      (if hasher.finish = signature.data then .ok () else .error .signatureCheckFailed,
        { file with hasher := none })

def close (p : Partition) (file : ReceiveFile) : Except FlashError Unit × Partition :=
  match p.file with
  | none => (.error .noActiveFile, p)
  | some current =>
    if current.written ≠ current.size then (.error .closeFailed, p)
    else
      match file.signature with
      | none => (.ok (), { p with file := some { current with closed := true } })
      | some signature =>
        match verify current signature with
        | (.error e, current) => (.error e, { p with file := some current })
        | (.ok (), current) => (.ok (), { p with file := some { current with closed := true } })

def abort (p : Partition) : Except FlashError Unit × Partition := (.ok (), p.discard)

def isClosed (p : Partition) : Bool := p.file.any (·.closed)

def activate (p : Partition) : Except FlashError Unit × Partition :=
  if p.isClosed then (.ok (), { p with activated := true }) else (.error .activateFailed, p)

def setState (p : Partition) (next : ImageState) : Except FlashError Unit × Partition :=
  if p.state.mayBecome next then
    let p :=
      match next with
      | .rejected => if p.file.isSome then p.discard else { p with rollbackRequested := true }
      | .aborted => p.discard
      | .unknown | .testing | .accepted => p
    (.ok (), { p with state := next })
  else (.error .badImageState, p)

instance : FlashDevice Partition where
  create := create
  write := write
  close := close
  abort := abort
  activate := activate
  setState := setState
  state := Partition.state

theorem image_append (slot : ByteArray) (block : Bytes) (p : Partition) :
    { p with slot := slot ++ block.toByteArray }.image = slot.data.toList ++ block := by
  simp [image]

end Partition
end Firmware
