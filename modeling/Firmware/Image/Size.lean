import Firmware.Error
/-!
# Size — the total that a `Content-Range` header declares

A probe for the first octet alone is answered with `bytes 0-0/` and the size of the whole image, in eight digits at
most.
-/
namespace Firmware.ImageSize

def lead : List Char := "bytes 0-0/".toList

/-- The declared size.  Texts of more than 18 octets are refused unread. -/
def ofContentRange (value : String) : Except UpdateError UInt32 :=
  if value.utf8ByteSize > 18 then .error .malformedContentRange
  else if !lead.isPrefixOf value.toList then .error .malformedContentRange
  else
    match Decimal.value? (value.toList.drop lead.length) with
    | some n => if n < UInt32.size then .ok (UInt32.ofNat n) else .error .malformedContentRange
    | none => .error .malformedContentRange

end Firmware.ImageSize
