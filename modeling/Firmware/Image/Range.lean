import Firmware.Text.Bounded
import Firmware.Text.Decimal
/-!
# Range — octet ranges of a resource

A range is asked for by its first and last octet.  The answer says which part was sent and how many octets of body
were received.
-/
namespace Firmware

/-- An octet range, both ends included. -/
structure ByteRange where
  first : UInt32
  last : UInt32
deriving DecidableEq, Repr

namespace ByteRange

def firstOctet : ByteRange := ⟨0, 0⟩

/-- The number of octets; `first ≤ last` is the caller's promise. -/
def size (r : ByteRange) : UInt32 := r.last - r.first + 1

/-- The value of the `Range` header that asks for it, as it is written into its room of 32 octets. -/
def headerValue (r : ByteRange) : Bounded 32 :=
  Bounded.empty.fill ["bytes=", Decimal.text r.first.toNat, "-", Decimal.text r.last.toNat]

def header (r : ByteRange) : String := r.headerValue.text

end ByteRange

/-- The answer to a range request.  The body itself is left in the caller's buffer. -/
structure RangeAnswer where
  status : UInt16
  contentRange : Option (Bounded 32)
  bodySize : UInt64
deriving DecidableEq

def RangeAnswer.isFailure (a : RangeAnswer) : Bool := 400 ≤ a.status

end Firmware
