import Firmware.Proofs.Integrity
import Firmware.Proofs.Serving
import Firmware.Proofs.Settings
/-!
# Recovery — no history keeps an update from succeeding

Whatever was handled before and however it went, between two messages no transfer is under way (`Settled`).  What else a
failure may have left, a half-written receive file or a rejected image, the next file that is opened replaces.  So once
the server serves and the flash device refuses nothing, an offer is performed.
-/
open Firmware.Task (Keeps)

namespace Firmware

/-! ## Between two messages -/

structure Settled {C : Type} (capacity : Nat) (d : Device C FaultyPartition) : Prop where
  free : d.transfer.isActive = false
  capacity : d.flash.partition.capacity = capacity

namespace Settled

variable {C : Type} {capacity : Nat}

theorem keptOutward : Device.KeptOutward (Settled capacity : Device C FaultyPartition → Prop) :=
  fun _ _ _ _ hd => ⟨hd.free, hd.capacity⟩

theorem keeps_abandon (ε : Type) :
    Keeps (Settled capacity) (Transfer.abandon : Task C FaultyPartition ε Unit) := by
  intro d hd
  obtain ⟨d', hrun⟩ := Transfer.abandon_eq_ok d
  have hcapacity := (Transfer.keeps_abandon (keptInward_capacity capacity)).of_ok hrun hd.capacity
  rw [Task.after_of_ok hrun]
  exact ⟨Transfer.free_of_idle (Transfer.idle_of_abandon hrun), hcapacity⟩

theorem keeps_activate : Keeps (Settled capacity : Device C FaultyPartition → Prop) Device.activate := fun d hd => by
  rw [Device.after_activate]
  exact ⟨hd.free, (FaultyPartition.capacity_orElse _ _ (Partition.capacity_activate _)).trans hd.capacity⟩

variable [RangeSource C]

theorem keeps_download (u : UpdateSettings) (offer : Offer) :
    Keeps (Settled capacity : Device C FaultyPartition → Prop) (Update.download u offer) := by
  intro d hd
  have hcapacity : ((Update.download u offer).after d).flash.partition.capacity = capacity :=
    Update.keeps_download (.of_inward (fun _ _ _ _ h => h) (keptInward_capacity capacity)) u offer d hd.capacity
  refine ⟨?_, hcapacity⟩
  rcases hrun : Update.download u offer d with ⟨total, m⟩ | ⟨e, m⟩
  · rw [Task.after_of_ok hrun]
    obtain ⟨hverified, -⟩ := Update.provenance_of_download hrun
    simp only [Transfer.isActive, hverified.ready]
  · rw [Task.after_of_error hrun]
    obtain ⟨-, rfl⟩ | ⟨m', -, -, habandon⟩ := Update.download_eq_error hrun
    · exact hd.free
    · exact Transfer.free_of_idle (Transfer.idle_of_abandon habandon)

/-- **No message leaves a transfer under way.** -/
theorem keeping : Service.Keeping (Settled capacity : Device C FaultyPartition → Prop) :=
  .of_parts keptOutward (fun _ _ hd => ⟨hd.free, hd.capacity⟩) (fun _ _ _ hd => ⟨hd.free, hd.capacity⟩)
    keeps_download (keeps_abandon _) keeps_activate

end Settled

/-- The devices that handling one payload after the other leads to. -/
inductive Service.Reaches {C : Type} [RangeSource C] (s : Service) (d₀ : Device C FaultyPartition) :
    Device C FaultyPartition → Prop
  | start : Reaches s d₀ d₀
  | handle (payload : Bytes) {d} : Reaches s d₀ d → Reaches s d₀ ((s.handle payload).after d)

theorem Service.Reaches.settled {C : Type} [RangeSource C] {s : Service} {d₀ d : Device C FaultyPartition}
    (h : Reaches s d₀ d) (hfresh : d₀.Fresh) : Settled d₀.flash.partition.capacity d := by
  induction h with
  | start => exact ⟨by rw [hfresh.transfer]; rfl, rfl⟩
  | handle payload _ ih => exact Service.keeps_handle Settled.keeping s payload _ ih

/-! ## After any history -/

theorem UpdateSettings.ranges_of_fault? {u : UpdateSettings} (h : u.fault? = none) :
    u.chunkSize ≠ 0 ∧ u.maxImageSize.toNat < 100000000 := by
  have hrange := fault?_eq_none.1 h
  exact ⟨hrange.chunkSize_ne_zero, Nat.lt_succ_of_le hrange.maxImageSize.2⟩

theorem Device.activate_of_sound {C : Type} {d : Device C FaultyPartition} (hsound : d.flash = .sound d.flash.partition)
    (hclosed : d.flash.partition.isClosed = true) :
    ∃ m, activate d = .ok () m ∧ m.flash.partition.image = d.flash.partition.image := by
  have hactivate := FaultyPartition.activate_sound hclosed
  rw [← hsound] at hactivate
  have hflash : (FlashDevice.activate d.flash).2 = .sound { d.flash.partition with activated := true } :=
    congrArg Prod.snd hactivate
  refine ⟨{ d with flash := (FlashDevice.activate d.flash).2 }.note (.activate (FlashDevice.activate d.flash).1),
    Task.conclude_eq_ok.2 ⟨congrArg Prod.fst hactivate, rfl⟩, ?_⟩
  change (FlashDevice.activate d.flash).2.partition.image = _
  rw [hflash]
  rfl

namespace Service

variable {C H : Type} [RangeSource C] [RangeSource H] {image : Bytes} {ready opened : C → Prop}

/-- **An admitted offer of an admissible image is performed with success.** -/
theorem handle_of_able {s : Service} {offer : Offer} {payload : Bytes} {url : ImageUrl}
    {d : Device C FaultyPartition} (hserves : RangeSource.Serves url image ready opened)
    (himage : Update.Admissible s.settings offer.digest image) (hd : Update.Able ready image d)
    (hpayload : Inbound.parse payload = .ok (.offer offer)) (hurl : ImageUrl.parse offer.url.text = .ok url)
    (hadmits : s.Admits offer) :
    ∃ d', s.handle payload d = .ok () d' ∧ d'.flash.partition.image = image ∧
      Call.activate (.ok ()) ∈ (s.handle payload).made d ∧
      ((s.handle payload).made d).filterMap Call.ack? =
        (offer.ackId.map fun id => Ack.ofText id .update true "OK").toList := by
  obtain ⟨m, hdownload, hsound, hslot⟩ := Update.download_of_serves hserves himage hd hurl
  obtain ⟨hverified, -⟩ := Update.provenance_of_download hdownload
  obtain ⟨moment, e, m', hperformed⟩ := performed_of_download hadmits hdownload
  have hperform : (s.handle payload : Task C FaultyPartition DeviceError Unit) = s.perform offer := by
    simp only [handle, hpayload, act, handleOffer_of_admits hadmits]
  rw [← hperform] at hperformed
  have hflash := hperformed.activation.flash
  rw [← hflash] at hsound
  have hclosed : moment.flash.partition.isClosed = true := by
    rw [hflash]
    exact hverified.closed
  obtain ⟨m₁, hactivate, hkept⟩ := Device.activate_of_sound hsound hclosed
  obtain ⟨rfl, rfl⟩ := hperformed.activation.selected m₁ hactivate
  refine ⟨_, hperformed.ends, ?_, ?_, hperformed.acks⟩
  · rw [hflash, hslot] at hkept
    exact hkept
  · obtain ⟨downloading, outcome, rest, -, -, -, hmade, -⟩ := hperformed.calls
    rw [hmade, Task.result_of_ok hactivate]
    simp

/-- **After any history an offer can be performed.**  Whatever was handled before, by whatever server and with whatever
faults: once the flash device refuses nothing and a server serves an admissible image, an admitted offer of it is
downloaded, acknowledged and activated. -/
theorem succeeds_after_any_history {s : Service} {offer : Offer} {payload : Bytes} {url : ImageUrl}
    {d₀ d : Device H FaultyPartition} {d₁ : Device C FaultyPartition} (hsettings : s.settings.fault? = none)
    (hfresh : d₀.Fresh) (hhistory : Reaches s d₀ d) (htransfer : d₁.transfer = d.transfer)
    (hflash : d₁.flash = .sound d.flash.partition) (hserves : RangeSource.Serves url image ready opened)
    (hready : ready d₁.source) (hpos : 0 < image.length) (hmax : image.length ≤ s.settings.maxImageSize.toNat)
    (hroom : image.length ≤ d₀.flash.partition.capacity) (hpayload : Inbound.parse payload = .ok (.offer offer))
    (hurl : ImageUrl.parse offer.url.text = .ok url) (hadmits : s.Admits offer)
    (hdigest : ∀ offered, offer.digest = some offered →
      s.settings.signerCertPath.isEmpty = false ∧ Sha256.digest image = offered.octets) :
    ∃ d', s.handle payload d₁ = .ok () d' ∧ d'.flash.partition.image = image ∧
      Call.activate (.ok ()) ∈ (s.handle payload).made d₁ ∧
      ((s.handle payload).made d₁).filterMap Call.ack? =
        (offer.ackId.map fun id => Ack.ofText id .update true "OK").toList := by
  obtain ⟨hchunk, hlimit⟩ := UpdateSettings.ranges_of_fault? hsettings
  have hsettled := hhistory.settled hfresh
  have hpartition : d₁.flash.partition = d.flash.partition := by
    rw [hflash]
    rfl
  have hable : Update.Able ready image d₁ := by
    refine ⟨hready, ?_, ?_, ?_⟩
    · rw [htransfer]
      exact hsettled.free
    · rw [hpartition]
      exact hflash
    · rw [hpartition, hsettled.capacity]
      exact hroom
  exact handle_of_able hserves ⟨hchunk, hpos, by omega, hmax, hdigest⟩ hable hpayload hurl hadmits

/-- A new device before a server that breaks the protocol; its flash device will neither abort nor take a state. -/
def troubled : Device RehearsedSource FaultyPartition where
  source := { image := ⟨#[7, 8, 9]⟩, fetches := [.serve, .fail .protocol] }
  flash := { partition := {}, aborts := [some .abortFailed], states := [some .badImageState] }
  uplink := { topic := .empty }

def relieved (d : Device RehearsedSource FaultyPartition) : Device RehearsedSource FaultyPartition :=
  { d with source := { image := ⟨#[7, 8, 9]⟩ }, flash := .sound d.flash.partition }

theorem relieved_succeeds :
    ∃ d', ({} : Service).handle offerPayload (relieved ((({} : Service).handle offerPayload).after troubled)) =
        .ok () d' ∧
      d'.flash.partition.image = [7, 8, 9] := by
  have hfresh : troubled.Fresh := ⟨rfl, _, _, rfl⟩
  have hhistory : Reaches {} troubled ((({} : Service).handle offerPayload).after troubled) := .handle _ .start
  generalize (({} : Service).handle offerPayload).after troubled = d at hhistory
  have hsettings : ({} : Service).settings.fault? = none := by decide
  have htransfer : (relieved d).transfer = d.transfer := rfl
  have hflash : (relieved d).flash = .sound d.flash.partition := rfl
  have hsize : (⟨#[7, 8, 9]⟩ : ByteArray).size < 100000000 := by decide
  have hready : (relieved d).source = { image := ⟨#[7, 8, 9]⟩ } := rfl
  have hpayload : Inbound.parse offerPayload = .ok (.offer
      { url := ⟨"https://host/image", by decide⟩, fileName := .empty, version := ⟨"01.00.07", by decide⟩
        ackId := some ⟨"a1", by decide⟩, digest := none }) := by decide +kernel
  have hurl : ImageUrl.parse "https://host/image" = .ok ⟨⟨"host", by decide⟩, ⟨"/image", by decide⟩⟩ := by
    decide +kernel
  have hserves := RehearsedSource.serves ⟨⟨"host", by decide⟩, ⟨"/image", by decide⟩⟩ hsize
  obtain ⟨d', hrun, himage, -⟩ := succeeds_after_any_history hsettings hfresh hhistory htransfer hflash hserves
    (by rw [hready]; exact ⟨rfl, rfl, rfl⟩) (by decide) (by decide) (by decide) hpayload hurl
    ⟨by decide, by decide⟩ (fun _ h => by cases h)
  exact ⟨d', hrun, himage⟩

end Service
end Firmware
