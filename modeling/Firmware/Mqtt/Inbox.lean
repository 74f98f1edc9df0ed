import Firmware.Mqtt.Reassembly
/-!
# Inbox — payloads that wait to be handled

The device handles one message at a time and keeps few waiting.  A payload that is too large, or finds the inbox full,
is dropped.
-/
namespace Firmware

structure Inbox where
  waiting : List Bytes := []
deriving DecidableEq, Repr

namespace Inbox

def depth : Nat := 4

/-- Whether the payload was taken, and the inbox after it. -/
def deliver (inbox : Inbox) (payload : Bytes) : Bool × Inbox :=
  if maxPayload < payload.length then (false, inbox)
  else if depth ≤ inbox.waiting.length then (false, inbox)
  else (true, { waiting := inbox.waiting ++ [payload] })

def receive? (inbox : Inbox) : Option Bytes × Inbox :=
  match inbox.waiting with
  | [] => (none, inbox)
  | payload :: rest => (some payload, { waiting := rest })

end Inbox
end Firmware
