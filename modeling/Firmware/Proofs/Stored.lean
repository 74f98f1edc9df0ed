import Firmware.Proofs.Blob
import Firmware.Storage.Certificates
import Firmware.Storage.Settings
/-!
# Stored — the settings that are stored are the last that were let through

The settings share their storage with values that others write and delete.  As long as these leave the slot of the
settings alone, loading gives back the last settings that passed their check, whatever was asked in between, and the
defaults where none did.
-/
namespace Firmware.Storage

/-- What may be asked of a storage, and what may happen to it. -/
inductive Request where
  | save (settings : Settings)
  | write (slot : Slot) (value : Bytes)
  | delete (slot : Slot)
  | storeCertificate (key : String) (pem : Bytes)
  | outage (error : Option StorageError)

/-- The storage after a request; one that fails leaves it as it is. -/
def after (s : Storage) : Request → Storage
  | .save settings => (s.saveSettings settings).toOption.getD s
  | .write slot value => (s.write slot value).toOption.getD s
  | .delete slot => (s.delete slot).toOption.getD s
  | .storeCertificate key pem => (s.storeCertificate key pem).toOption.getD s
  | .outage error => { s with outage := error }

def afterAll (s : Storage) (requests : List Request) : Storage := requests.foldl after s

namespace Request

/-- The request leaves the slot of the settings to `saveSettings`. -/
def Spares : Request → Prop
  | .write slot _ | .delete slot => slot ≠ settingsSlot
  | .save _ | .storeCertificate .. | .outage _ => True

def accepted? : Request → Option Settings
  | .save settings => settings.check.toOption.map fun _ => settings
  | .write .. | .delete _ | .storeCertificate .. | .outage _ => none

theorem check_of_accepted? {r : Request} {settings : Settings} (h : r.accepted? = some settings) :
    settings.check = .ok () := by
  cases r with
  | save settings' =>
    cases hcheck : settings'.check with
    | ok u =>
      have hsettings : settings' = settings := by simpa [accepted?, hcheck, Except.toOption] using h
      rw [← hsettings, hcheck]
    | error e => simp [accepted?, hcheck, Except.toOption] at h
  | _ => simp [accepted?] at h

end Request

def lastAccepted? (requests : List Request) : Option Settings := (requests.filterMap Request.accepted?).getLast?

theorem lastAccepted?_cons (r : Request) (requests : List Request) :
    lastAccepted? (r :: requests) = (lastAccepted? requests).or r.accepted? := by
  unfold lastAccepted?
  cases hr : r.accepted? with
  | none => simp [hr]
  | some settings =>
    rw [List.filterMap_cons_some hr, List.getLast?_cons]
    cases (requests.filterMap Request.accepted?).getLast? <;> rfl

theorem check_of_lastAccepted? {requests : List Request} {settings : Settings}
    (h : lastAccepted? requests = some settings) : settings.check = .ok () := by
  obtain ⟨r, -, hr⟩ := List.mem_filterMap.1 (List.mem_of_getLast? h)
  exact Request.check_of_accepted? hr

/-! ## One request -/

theorem saveSettings_eq (s : Storage) (settings : Settings) :
    s.saveSettings settings = settings.check.map fun _ => s.put settingsSlot settings.blob := by
  have hroom : ¬ settingsRoom < settings.blob.length :=
    Nat.not_lt.2 (Nat.le_trans settings.length_blob_le (by decide))
  unfold saveSettings
  cases settings.check with
  | error e => rfl
  | ok u => simp [bind, Except.bind, Except.map, pure, Except.pure, hroom]

theorem certificateSlot_ne (key : String) : certificateSlot key ≠ settingsSlot := fun h => by
  have hspace : "certs" = "iotc" := congrArg Slot.space h
  exact absurd hspace (by decide)

theorem get?_write_of_ne {s : Storage} {slot other : Slot} (h : other ≠ slot) (value : Bytes) :
    ((s.write slot value).toOption.getD s).get? other = s.get? other := by
  unfold write
  cases s.outage with
  | none => simp [Except.toOption, get?_put, h]
  | some e => rfl

theorem get?_delete_of_ne {s : Storage} {slot other : Slot} (h : other ≠ slot) :
    ((s.delete slot).toOption.getD s).get? other = s.get? other := by
  unfold delete
  cases s.outage with
  | none => simp [Except.toOption, get?_erase, h]
  | some e => rfl

/-- **One request**: an accepted save fills the slot of the settings, everything else that spares it leaves it. -/
theorem get?_after {r : Request} (h : r.Spares) (s : Storage) :
    (s.after r).get? settingsSlot = (r.accepted?.map Settings.blob).or (s.get? settingsSlot) := by
  cases r with
  | save settings =>
    simp only [after, Request.accepted?, saveSettings_eq]
    cases settings.check with
    | ok u => simp [Except.map, Except.toOption, get?_put]
    | error e => rfl
  | write slot value => exact get?_write_of_ne (Ne.symm h) value
  | delete slot => exact get?_delete_of_ne (Ne.symm h)
  | storeCertificate key pem =>
    have hkept := get?_write_of_ne (s := s) (certificateSlot_ne key).symm pem
    rw [← hkept]
    simp only [after, storeCertificate]
    cases s.write (certificateSlot key) pem <;> rfl
  | outage error => rfl

/-! ## Runs -/

/-- **All requests**: the slot of the settings holds the blob of the last that were let through. -/
theorem get?_afterAll {requests : List Request} (h : ∀ r ∈ requests, r.Spares) (s : Storage) :
    (s.afterAll requests).get? settingsSlot =
      ((lastAccepted? requests).map Settings.blob).or (s.get? settingsSlot) := by
  induction requests generalizing s with
  | nil => rfl
  | cons r requests ih =>
    obtain ⟨hr, hrequests⟩ := List.forall_mem_cons.1 h
    have hrun : s.afterAll (r :: requests) = (s.after r).afterAll requests := rfl
    rw [hrun, ih hrequests, get?_after hr, lastAccepted?_cons]
    cases lastAccepted? requests <;> cases r.accepted? <;> rfl

theorem loadSettings_of_get? {s : Storage} {stored : Option Settings}
    (h : s.get? settingsSlot = stored.map Settings.blob) : s.loadSettings = .ok (stored.getD {}) := by
  unfold loadSettings
  rw [h]
  cases stored with
  | none => rfl
  | some settings =>
    have hroom : ¬ settingsRoom < settings.blob.length :=
      Nat.not_lt.2 (Nat.le_trans settings.length_blob_le (by decide))
    simp [hroom, Settings.ofBlob?_blob]

/-- **The stored settings are always the last that were let through.**  Saving succeeds exactly on the settings that
pass their check, whose blob always finds room, and a refused save changes no value; loading after any requests gives
the settings that were saved last, or the defaults, and these pass their check. -/
theorem loads_last_accepted {s : Storage} (hs : s.get? settingsSlot = none) {requests : List Request}
    (hspares : ∀ r ∈ requests, r.Spares) :
    (∀ (t : Storage) (settings : Settings),
      settings.blob.length ≤ settingsRoom ∧
      ((∃ t', t.saveSettings settings = .ok t') ↔ settings.check = .ok ()) ∧
      (∀ e, t.saveSettings settings = .error e → settings.check = .error e ∧ ∀ slot,
        (t.after (.save settings)).get? slot = t.get? slot)) ∧
    (s.afterAll requests).loadSettings = .ok ((lastAccepted? requests).getD {}) ∧
    ((lastAccepted? requests).getD {}).check = .ok () := by
  refine ⟨fun t settings => ⟨?_, ?_, fun e he => ?_⟩, ?_, ?_⟩
  · exact Nat.le_trans settings.length_blob_le (by decide)
  · rw [saveSettings_eq]
    cases settings.check with
    | ok u => simp [Except.map]
    | error e => simp [Except.map]
  · have hcheck : settings.check = .error e := by
      rw [saveSettings_eq] at he
      cases hc : settings.check with
      | ok u => simp [hc, Except.map] at he
      | error e' => simpa [hc, Except.map] using he
    refine ⟨hcheck, fun slot => ?_⟩
    rw [after, he]
    rfl
  · apply loadSettings_of_get?
    rw [get?_afterAll hspares, hs, Option.or_none]
  · cases hlast : lastAccepted? requests with
    | none => rfl
    | some settings => exact check_of_lastAccepted? hlast

def largeChunks : Settings := { ota := { chunkSize := 8192 } }

def noRetries : Settings := { ota := { maxRetries := 0 } }

/-- Both are saved, among requests for other slots and an outage. -/
def mixedRequests : List Request :=
  [.write ⟨"net", "ssid"⟩ [1], .save largeChunks, .outage (some .full), .save noRetries,
   .storeCertificate "root_ca" [2], .delete ⟨"net", "ssid"⟩]

theorem mixedRequests_load :
    ({} : Storage).get? settingsSlot = none ∧ (∀ r ∈ mixedRequests, r.Spares) ∧
      ((∃ t, ({} : Storage).saveSettings largeChunks = .ok t) ↔ largeChunks.check = .ok ()) ∧
      (({} : Storage).afterAll mixedRequests).loadSettings = .ok largeChunks ∧ largeChunks.check = .ok () := by
  have hspares : ∀ r ∈ mixedRequests, r.Spares := by simp [mixedRequests, Request.Spares, settingsSlot]
  have hlast : (lastAccepted? mixedRequests).getD {} = largeChunks := rfl
  obtain ⟨hsave, hload, hcheck⟩ := loads_last_accepted (s := {}) rfl hspares
  rw [hlast] at hload hcheck
  exact ⟨rfl, hspares, (hsave {} largeChunks).2.1, hload, hcheck⟩

end Firmware.Storage
