import Firmware.Device
/-!
# Transfer — receiving one image in order

A transfer opens the receive file, takes blocks in order up to the declared size, and closes the file only when it is
full.  Whatever the flash device refuses leaves the transfer failed; a step that does not fit leaves it as it is.
-/
namespace Firmware.Transfer

variable {C F ε : Type} [FlashDevice F]

open Device

def begin (file : ReceiveFile) : Task C F UpdateError Unit := do
  if (← transferNow).isActive then throw .alreadyInProgress
  if file.size = 0 then throw .emptyImage
  match ← Task.attempt (create file) with
  | .ok () => setTransfer { phase := .receiving file.size 0, file := some file }
  | .error e =>
    setTransfer { phase := .failed, file := some file }
    throw (.flash e)

/-- `a + b`, held at the largest number of 32 bits. -/
def saturatingAdd (a b : UInt32) : UInt32 := if a.toNat + b.toNat < UInt32.size then a + b else 0xFFFFFFFF

/-- Writes a block at an offset and answers how many octets are written in all.  The size of a block counts modulo
2 ^ 32. -/
def write (offset : UInt32) (block : Bytes) : Task C F UpdateError UInt32 := do
  let .receiving expected written := (← transferNow).phase | throw .notReceiving
  if offset ≠ written then throw (.nonSequential written offset)
  let size := UInt32.ofNat block.length
  if expected < saturatingAdd written size then throw .overflow
  match ← Task.attempt (Device.write offset block) with
  | .error e =>
    setPhase .failed
    throw (.flash e)
  | .ok taken =>
    if taken ≠ block.length then
      setPhase .failed
      throw (.shortWrite offset size (UInt32.ofNat taken))
    setPhase (.receiving expected (written + size))
    return written + size

/-- Closes a full receive file.  A file that fails its check is marked rejected. -/
def finish : Task C F UpdateError Unit := do
  let transfer ← transferNow
  let .receiving expected written := transfer.phase | throw .notReceiving
  if written ≠ expected then throw (.incompleteTransfer expected written)
  let some file := transfer.file | throw .notReceiving
  setPhase .validating
  match ← Task.attempt (close file) with
  | .error e =>
    discard <| Task.attempt (setState .rejected)
    setPhase .failed
    throw (.flash e)
  | .ok () => pure ()
  match ← Task.attempt (setState .testing) with
  | .error e =>
    setPhase .failed
    throw (.flash e)
  | .ok () => setPhase .ready

/-- Discards what was received.  The flash device is told even if the transfer has failed, but not when it is idle. -/
def abandon : Task C F ε Unit := do
  if (← transferNow).phase = .idle then return
  discard <| Task.attempt abort
  if (← imageState).mayBecome .aborted then
    discard <| Task.attempt (setState .aborted)
  setTransfer {}

end Firmware.Transfer
