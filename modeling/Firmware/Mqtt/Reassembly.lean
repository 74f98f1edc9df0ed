import Firmware.Bytes
/-!
# Reassembly — messages that arrive in pieces

A piece names its offset and the size of the whole message.  A piece at offset zero starts over; any other has to
continue the message under way exactly where it stands, or the message is dropped.
-/
namespace Firmware

def maxPayload : Nat := 4096

structure Reassembly where
  received : Bytes := []
  /-- The declared size; none when no message is under way. -/
  total : Option Nat := none
deriving DecidableEq, Repr

namespace Reassembly

/-- Continues the message under way by a piece.  The message is handed out with its last octet. -/
def extend (r : Reassembly) (offset total : Nat) (data : Bytes) : Option Bytes × Reassembly :=
  if r.total ≠ some total ∨ offset ≠ r.received.length then (none, {})
  else
    let received := r.received ++ data
    if maxPayload < received.length ∨ total < received.length then (none, {})
    else if received.length < total then (none, { r with received })
    else (some received, {})

def push (r : Reassembly) (offset total : Nat) (data : Bytes) : Option Bytes × Reassembly :=
  if offset = 0 then
    if maxPayload < total then (none, {}) else extend { received := [], total := some total } offset total data
  else r.extend offset total data

end Reassembly
end Firmware
