import Firmware.Image.Version
import Firmware.Mqtt.Inbox
import Firmware.Update
/-!
# Service — acting on what the cloud sends

The service decodes a payload, follows commands, admits or refuses offered updates and answers every request that asks
for it.  A failed update is told to the cloud and to the log; the service itself fails only when a payload cannot be
decoded or an acknowledgement cannot be published.
-/
namespace Firmware

def firmwareVersion : String := "01.00.06"

structure Service where
  running : String := firmwareVersion
  settings : UpdateSettings := {}
deriving DecidableEq

namespace Service

variable {C F : Type} [RangeSource C] [FlashDevice F]

open Device

def answer (id : Option AckId) (kind : RequestKind) (success : Bool) (message : String) : Task C F DeviceError Unit :=
  match id with
  | none => pure ()
  | some id => Task.raising .ack (acknowledge (.ofText id kind success message))

def start (s : Service) : Task C F DeviceError Unit := do
  let image ← Task.raising .update Update.confirmBoot
  tell (.started s.running image)

/-- Follows a command and tells whether it was followed, and what to answer. -/
def follow : Command → Task C F DeviceError (Bool × String)
  | .ping => return (true, "OK")
  | .led led on => do
    drive led on
    return (true, "OK")
  | .invalid why => return (false, why.message)
  | .unknown => return (false, "Not implemented")

def handleCommand (command : Command) (id : Option AckId) : Task C F DeviceError Unit := do
  let (success, message) ← follow command
  tell (.commandHandled command success)
  answer id .command success message

def giveUp (e : UpdateError) (id : Option AckId) : Task C F DeviceError Unit := do
  tell (.failed e)
  answer id .update false e.message

/-- Downloads an admitted update and activates it.  Once the image is verified its success has been acknowledged, so
an activation that fails is told to the log alone. -/
def perform (s : Service) (offer : Offer) : Task C F DeviceError Unit := do
  match ← Task.attempt (Update.download s.settings offer) with
  | .error e => giveUp e offer.ackId
  | .ok _ =>
    let e ← Update.activate s.settings (offer.ackId.map fun id => .ofText id .update true "OK")
    tell (.failed e)

/-- Admits an offer of another version; one that sorts below the running version only if the settings say so. -/
def handleOffer (s : Service) (offer : Offer) : Task C F DeviceError Unit :=
  match VersionOrder.ofOffer s.running offer.version.text with
  | .same => do
    tell (.skipped offer.version.text)
    answer offer.ackId .update true "Already running this version"
  | .rollback => if s.settings.allowDowngrade then s.perform offer else giveUp .downgradeRejected offer.ackId
  | .upgrade => s.perform offer

def act (s : Service) : Inbound → Task C F DeviceError Unit
  | .command command _ id => handleCommand command id
  | .offer offer => s.handleOffer offer
  | .malformed kind id e => do
    answer (some id) kind false e.message
    throw (.message e)
  | .other _ => pure ()

def handle (s : Service) (payload : Bytes) : Task C F DeviceError Unit :=
  match Inbound.parse payload with
  | .ok message => s.act message
  | .error e => throw (.message e)

def handleAll {ε : Type} (s : Service) (payloads : List Bytes) : Task C F ε (List (Except DeviceError Unit)) :=
  payloads.mapM fun payload => Task.attempt (s.handle payload)

end Service
end Firmware
