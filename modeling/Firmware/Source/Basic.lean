import Firmware.Error
import Firmware.Image.Range
/-!
# Source — where octet ranges are fetched from

A source holds at most one session.  A fetch is handed a buffer and gives it back, changed in places but never in size.
-/
namespace Firmware

/-- What a fetch leaves: its answer, and the buffer. -/
structure Fetched where
  answer : Except FetchError RangeAnswer
  buffer : Bytes

/-- A source of octet ranges; every operation leaves the source as it is afterwards. -/
class RangeSource (C : Type) where
  connect : C → (host : String) → Except FetchError Unit × C
  disconnect : C → C
  fetch : C → (resource : String) → ByteRange → (buffer : Bytes) → Fetched × C
  isOpen : C → Bool
  length_fetch : ∀ c resource range buffer, (fetch c resource range buffer).1.buffer.length = buffer.length

/-- A buffer whose front is overwritten by `body`, as far as the buffer reaches. -/
def overlay (buffer body : Bytes) : Bytes := body.take buffer.length ++ buffer.drop body.length

theorem length_overlay (buffer body : Bytes) : (overlay buffer body).length = buffer.length := by
  simp only [overlay, List.length_append, List.length_take, List.length_drop]
  omega

end Firmware
