import Firmware.Proofs.Stored
/-!
# Torn — a blob that lost its end is found out

A reader of a blob never looks at where the octets end, except to find that they end too early.  So what it has read
stays read when more octets follow (`Steady`), and of a blob that it takes whole it accepts no shorter front
(`Reads.run_front`).  That holds of all settings at once: wherever the stored blob is cut, loading finds it corrupted
and never takes it for other settings (`torn_blob_is_corrupted`).
-/
namespace Firmware
namespace Blob

variable {α β : Type} {read : Reader α}

/-- What was read stays read when more octets follow, and these are left over. -/
def Steady (read : Reader α) : Prop :=
  ∀ (blob more rest : Bytes) (a : α), read.run blob = some (a, rest) → read.run (blob ++ more) = some (a, rest ++ more)

theorem steady_pure (a : α) : Steady (pure a) := by
  intro blob more rest b h
  cases h
  rfl

theorem steady_failure : Steady (failure : Reader α) := by
  intro blob more rest a h
  cases h

theorem Steady.bind {next : α → Reader β} (h : Steady read) (hn : ∀ a, Steady (next a)) :
    Steady (read >>= next) := by
  intro blob more rest b hrun
  rw [StateT.run_bind] at hrun ⊢
  obtain ⟨⟨a, middle⟩, hread, hnext⟩ := Option.bind_eq_some_iff.1 hrun
  rw [h blob more middle a hread]
  exact hn a middle more rest b hnext

theorem Steady.map (h : Steady read) (f : α → β) : Steady (read >>= fun a => pure (f a)) :=
  h.bind fun a => steady_pure (f a)

/-- **A reader accepts no shorter front** of octets that it takes whole. -/
theorem Reads.run_front {blob front : Bytes} {a : α} (h : Reads read blob a) (hs : Steady read)
    (hfront : front <+: blob) (hcut : front ≠ blob) : read.run front = none := by
  obtain ⟨lost, rfl⟩ := hfront
  cases hrun : read.run front with
  | none => rfl
  | some result =>
    obtain ⟨b, rest⟩ := result
    have hlonger := hs front lost rest b hrun
    have hwhole := h []
    rw [List.append_nil, hlonger] at hwhole
    have hnothing : rest ++ lost = [] := (Prod.mk.inj (Option.some.inj hwhole)).2
    rw [(List.append_eq_nil_iff.1 hnothing).2, List.append_nil] at hcut
    exact absurd rfl hcut

/-! ## The readers are steady -/

theorem steady_octet : Steady octet := by
  intro blob more rest b h
  cases blob with
  | nil => cases h
  | cons b' blob =>
    cases h
    rfl

theorem steady_take (n : Nat) : Steady (take n) := by
  intro blob more rest octets h
  have hrun : (if n ≤ blob.length then some (blob.take n, blob.drop n) else none) = some (octets, rest) := h
  split at hrun
  · rename_i hlength
    cases hrun
    have hroom : n ≤ (blob ++ more).length := by
      rw [List.length_append]
      omega
    change (if n ≤ (blob ++ more).length then some ((blob ++ more).take n, (blob ++ more).drop n) else none) = _
    rw [if_pos hroom, List.take_append_of_le_length hlength, List.drop_append_of_le_length hlength]
  · cases hrun

theorem steady_readNumber (groups : Nat) (top : UInt8) : Steady (readNumber groups top) := by
  induction groups with
  | zero => exact steady_failure
  | succ groups ih =>
    unfold readNumber
    refine steady_octet.bind fun b => ?_
    split
    · split
      · exact steady_failure
      · exact steady_pure _
    · exact ih.map _

theorem steady_readU16 : Steady readU16 := (steady_readNumber 3 3).map _

theorem steady_readU32 : Steady readU32 := (steady_readNumber 5 15).map _

theorem steady_readText (limit : Nat) : Steady (readText limit) := by
  unfold readText
  refine (steady_readNumber 10 1).bind fun n => (steady_take n).bind fun octets => ?_
  split
  · split
    · exact steady_pure _
    · exact steady_failure
  · exact steady_failure

theorem steady_readBoolean : Steady readBoolean := by
  unfold readBoolean
  refine steady_octet.bind fun b => ?_
  split
  · exact steady_pure _
  · split
    · exact steady_pure _
    · exact steady_failure

end Blob

open Blob

/-! ## Settings -/

theorem DeviceSettings.steady_read : Steady read :=
  (steady_readText 128).bind fun _ => (steady_readText 64).bind fun _ => (steady_readText 32).bind fun _ =>
    (steady_readText 128).bind fun _ => (steady_readText 16).map _

theorem UpdateSettings.steady_read : Steady read := by
  have hnumber := steady_readU32
  exact hnumber.bind fun _ => hnumber.bind fun _ => hnumber.bind fun _ => hnumber.bind fun _ => hnumber.bind fun _ =>
    steady_readU16.bind fun _ => hnumber.bind fun _ => hnumber.bind fun _ => hnumber.bind fun _ =>
    (steady_readText 64).bind fun _ => (steady_readText 64).bind fun _ => steady_readBoolean.map _

def Settings.read : Reader Settings := do
  let device ← DeviceSettings.read
  let ota ← UpdateSettings.read
  return { device, ota }

theorem Settings.ofBlob?_eq_read (blob : Bytes) : ofBlob? blob = (read.run blob).map Prod.fst := by
  unfold ofBlob? read
  simp only [StateT.run_bind]
  cases DeviceSettings.read.run blob with
  | none => rfl
  | some device =>
    cases hota : UpdateSettings.read.run device.2 <;> simp [hota]

theorem Settings.steady_read : Steady read :=
  DeviceSettings.steady_read.bind fun _ => UpdateSettings.steady_read.map _

theorem Settings.reads_blob (s : Settings) : Reads read s.blob s :=
  s.device.reads_blob.bind (s.ota.reads_blob.map _)

/-- **No shorter front of a blob is read**, whatever the settings. -/
theorem Settings.ofBlob?_front {s : Settings} {front : Bytes} (hfront : front <+: s.blob) (hcut : front ≠ s.blob) :
    ofBlob? front = none := by
  rw [ofBlob?_eq_read, s.reads_blob.run_front steady_read hfront hcut]
  rfl

namespace Storage

/-- **A torn blob is found out.**  Settings that pass their check are stored as a blob that loads as these settings, and
wherever that blob is cut, what is left of it loads as corrupted. -/
theorem torn_blob_is_corrupted {settings : Settings} (hcheck : settings.check = .ok ()) (s : Storage) :
    ∃ t, s.saveSettings settings = .ok t ∧ t.get? settingsSlot = some settings.blob ∧ t.loadSettings = .ok settings ∧
      ∀ (u : Storage) (front : Bytes), front <+: settings.blob → front ≠ settings.blob →
        u.get? settingsSlot = some front → u.loadSettings = .error .corrupted := by
  have hstored : (s.put settingsSlot settings.blob).get? settingsSlot = (some settings).map Settings.blob := by
    rw [get?_put, if_pos rfl]
    rfl
  refine ⟨s.put settingsSlot settings.blob, ?_, hstored, ?_, fun u front hfront hcut hu => ?_⟩
  · rw [saveSettings_eq, hcheck]
    rfl
  · exact loadSettings_of_get? hstored
  · unfold loadSettings
    simp only [hu, Settings.ofBlob?_front hfront hcut, ite_self]

/-- A storage in which only the front of a blob arrived. -/
def interrupted : Storage := { values := [(settingsSlot, largeChunks.blob.take 20)] }

theorem interrupted_is_corrupted :
    largeChunks.check = .ok () ∧ largeChunks.blob.take 20 <+: largeChunks.blob ∧
      largeChunks.blob.take 20 ≠ largeChunks.blob ∧ interrupted.loadSettings = .error .corrupted := by
  have hfront : largeChunks.blob.take 20 <+: largeChunks.blob := List.take_prefix 20 _
  have hcut : largeChunks.blob.take 20 ≠ largeChunks.blob := by decide +kernel
  have hcheck : largeChunks.check = .ok () := rfl
  obtain ⟨t, -, -, -, htorn⟩ := torn_blob_is_corrupted hcheck {}
  exact ⟨hcheck, hfront, hcut, htorn interrupted _ hfront hcut rfl⟩

end Storage
end Firmware
