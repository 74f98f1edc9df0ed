import Firmware.Download
/-!
# Update — from an offer to an activated image

`download` fetches, writes and verifies an image.  If anything fails, the session is closed, the receive file is
discarded and the running image stays untouched.  `activate` selects a verified image.  The running image is confirmed
or refused after a boot.
-/
namespace Firmware.Update

variable {C F ε : Type} [RangeSource C] [FlashDevice F]

open Device

def receive (u : UpdateSettings) (url : ImageUrl) (digest : Option ImageDigest) : Task C F UpdateError UInt32 := do
  Task.raising .fetch (connect url.host.text)
  let total ← Download.probe url.resource.text u.maxImageSize
  Transfer.begin (.ofSettings u total digest)
  Download.run u url total
  disconnect
  wait u.postDownloadDelayMs
  Transfer.finish
  tell (.downloaded total)
  return total

def download (u : UpdateSettings) (offer : Offer) : Task C F UpdateError UInt32 := do
  match ImageUrl.parse offer.url.text with
  | .error fault => throw (.invalidUrl fault.reason)
  | .ok url =>
    tell (.updateStarted offer.version.text)
    let answer ← Task.attempt (receive u url offer.digest)
    disconnect
    match answer with
    | .ok total => return total
    | .error e =>
      Transfer.abandon
      throw e

/-- Acknowledges, lets the acknowledgement leave, and activates the verified image.  It comes back only with an error;
a device that should have been reset is one, too. -/
def activate (u : UpdateSettings) (ack : Option Ack) : Task C F ε UpdateError := do
  if (← transferNow).phase ≠ .ready then return .notValidated
  if let some ack := ack then discard <| Task.attempt (acknowledge ack)
  wait u.ackSettleMs
  match ← Task.attempt Device.activate with
  | .error e =>
    Transfer.abandon
    return .flash e
  | .ok () => return .activationReturned

def confirmBoot : Task C F UpdateError ImageState := do
  let state ← imageState
  if state ≠ .testing then return state
  Task.raising .flash (setState .accepted)
  return .accepted

def rejectRunning : Task C F UpdateError Unit := Task.raising .flash (setState .rejected)

end Firmware.Update
