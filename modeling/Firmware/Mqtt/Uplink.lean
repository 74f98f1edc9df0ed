import Firmware.Message.Ack
/-!
# Uplink — publishing acknowledgements

Acknowledgements go out as JSON on the device's topic.  `failures` says how the coming attempts end: an error stands
for an attempt that fails with it; once the list is used up every attempt succeeds.
-/
namespace Firmware

structure Publication where
  topic : Bounded 256
  payload : String
deriving DecidableEq

structure Uplink where
  topic : Bounded 256
  failures : List (Option AckError) := []
deriving DecidableEq

def Uplink.publish (u : Uplink) (ack : Ack) : Except AckError Publication × Uplink :=
  match u.failures with
  | some e :: rest => (.error e, { u with failures := rest })
  | none :: rest => (.ok ⟨u.topic, ack.json⟩, { u with failures := rest })
  | [] => (.ok ⟨u.topic, ack.json⟩, u)

end Firmware
