import Firmware.Settings.Blob
import Firmware.Storage.Basic
/-!
# Stored settings

The settings are one blob in one slot.  Only settings that pass their check are stored; where nothing is stored the
defaults hold.  Neither direction minds an outage: the blob is not read through the general interface.
-/
namespace Firmware.Storage

def settingsSlot : Slot := ⟨"iotc", "syscfg"⟩

def settingsRoom : Nat := 1024

def loadSettings (s : Storage) : Except SettingsError Settings :=
  match s.get? settingsSlot with
  | none => .ok {}
  | some blob =>
    if settingsRoom < blob.length then .error .corrupted
    else
      match Settings.ofBlob? blob with
      | some settings => .ok settings
      | none => .error .corrupted

def saveSettings (s : Storage) (settings : Settings) : Except SettingsError Storage := do
  settings.check
  if settingsRoom < settings.blob.length then throw .broken
  return s.put settingsSlot settings.blob

end Firmware.Storage
