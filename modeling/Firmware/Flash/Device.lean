import Firmware.Image.File
import Firmware.Image.State
/-!
# Flash — the device that images are written to

One receive file at a time: it is created, written block by block from its start, closed and then activated.  `abort`
discards it at any time.  The device also keeps the state of an image.
-/
namespace Firmware

/-- A flash device; every operation answers and leaves the device as it is afterwards. -/
class FlashDevice (F : Type) where
  create : F → ReceiveFile → Except FlashError Unit × F
  write : F → (offset : UInt32) → (block : Bytes) → Except FlashError Nat × F
  close : F → ReceiveFile → Except FlashError Unit × F
  abort : F → Except FlashError Unit × F
  /-- Selects the received image and resets; a real device does not come back from it. -/
  activate : F → Except FlashError Unit × F
  setState : F → ImageState → Except FlashError Unit × F
  state : F → ImageState

end Firmware
