import Firmware.Error
import Firmware.Image.State
import Firmware.Message.Command
/-!
# Event — what the device tells about its work

Events are structured; `Event.log` is the line that each one writes to the log.
-/
namespace Firmware

inductive Event where
  | started (version : String) (image : ImageState)
  | commandHandled (command : Command) (success : Bool)
  | updateStarted (version : String)
  | progress (percent : UInt8) (offset total : UInt32)
  | downloaded (total : UInt32)
  | skipped (version : String)
  | failed (error : UpdateError)
deriving DecidableEq, Repr

def Event.log : Event → LogLine
  | .started version image => ⟨.info, "START | firmware=" ++ version ++ " image=" ++ image.name⟩
  | .commandHandled command success =>
    ⟨.info, "CMD   | " ++ command.describe ++ " -> " ++ (if success then "ok" else "failed")⟩
  | .updateStarted version => ⟨.info, "OTA   | starting update to " ++ version⟩
  | .progress percent offset total =>
    ⟨.info, "OTA   | " ++ Decimal.padded 3 percent.toNat ++ "% (" ++ Decimal.text offset.toNat ++ "/" ++
      Decimal.text total.toNat ++ " bytes)"⟩
  | .downloaded total => ⟨.info, "OTA   | " ++ Decimal.text total.toNat ++ " bytes downloaded and verified"⟩
  | .skipped version => ⟨.warn, "OTA   | " ++ version ++ " already running, skipped"⟩
  | .failed error => ⟨.error, "OTA   | failed: " ++ error.message⟩

end Firmware
