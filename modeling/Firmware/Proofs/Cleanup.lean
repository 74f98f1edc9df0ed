import Firmware.Proofs.Conduct
import Firmware.Source.Rehearsed
/-!
# Cleanup — what a failed download leaves behind

A transfer that is idle has nothing in the partition: that is what every operation of the update keeps (`Tidy`), as long
as the flash device does abort when it is told to.  So a download that fails leaves nothing, from wherever it started:
either the discarding finds the transfer busy and empties the partition, or it finds it idle and the partition empty.
-/
open Firmware.Task (Keeps keeps_pure keeps_bind keeps_raising)

namespace Firmware

/-! ## A step of a transfer leaves the device as it was, or the transfer busy -/

namespace Transfer

variable {C F : Type} [FlashDevice F]

theorem begin_same_or_busy (file : ReceiveFile) (d : Device C F) :
    (begin file : Task C F UpdateError Unit).after d = d ∨
      ((begin file : Task C F UpdateError Unit).after d).transfer.phase ≠ .idle := by
  rcases hrun : begin file d with ⟨_, d'⟩ | ⟨e, d'⟩
  · obtain ⟨-, -, htransfer, -⟩ := begin_eq_ok hrun
    rw [Task.after_of_ok hrun, htransfer]
    exact .inr fun h => by cases h
  · rw [Task.after_of_error hrun]
    refine (begin_eq_error hrun).imp (·.1) fun ⟨htransfer, _⟩ => ?_
    rw [htransfer]
    exact fun h => by cases h

theorem write_same_or_busy (offset : UInt32) (block : Bytes) (d : Device C F) :
    (write offset block : Task C F UpdateError UInt32).after d = d ∨
      ((write offset block : Task C F UpdateError UInt32).after d).transfer.phase ≠ .idle := by
  rcases hrun : write offset block d with ⟨_, d'⟩ | ⟨e, d'⟩
  · obtain ⟨hfits, -, htransfer, -⟩ := write_eq_ok hrun
    obtain ⟨expected, hphase, -⟩ := misfit?_eq_none.1 hfits
    rw [Task.after_of_ok hrun, htransfer expected hphase]
    exact .inr fun h => by cases h
  · rw [Task.after_of_error hrun]
    refine (write_eq_error hrun).imp (·.1) fun ⟨_, htransfer, _⟩ => ?_
    rw [htransfer]
    exact fun h => by cases h

theorem finish_same_or_busy (d : Device C F) :
    (finish : Task C F UpdateError Unit).after d = d ∨
      ((finish : Task C F UpdateError Unit).after d).transfer.phase ≠ .idle := by
  rcases hrun : finish d with ⟨_, d'⟩ | ⟨e, d'⟩
  · obtain ⟨file, expected, flash, -, -, -, htransfer, -⟩ := finish_eq_ok hrun
    rw [Task.after_of_ok hrun, htransfer]
    exact .inr fun h => by cases h
  · rw [Task.after_of_error hrun]
    refine (finish_eq_error hrun).imp (·.1) fun ⟨_, htransfer, _⟩ => ?_
    rw [htransfer]
    exact fun h => by cases h

end Transfer

/-! ## An idle transfer has nothing in the partition -/

variable {C : Type}

/-- No abort is going to be refused, and an idle transfer has nothing in the partition. -/
structure Tidy (d : Device C FaultyPartition) : Prop where
  aborts : ∀ fault ∈ d.flash.aborts, fault = none
  idle : d.transfer.phase = .idle →
    d.transfer.file = none ∧ d.flash.partition.file = none ∧ d.flash.partition.slot = .empty

theorem Device.Fresh.tidy {d : Device C FaultyPartition} (h : d.Fresh)
    (haborts : ∀ fault ∈ d.flash.aborts, fault = none) : Tidy d := by
  obtain ⟨capacity, state, hpartition⟩ := h.partition
  refine ⟨haborts, fun _ => ?_⟩
  rw [h.transfer, hpartition]
  exact ⟨rfl, rfl, rfl⟩

theorem keptInward_aborts :
    Device.KeptInward fun d : Device C FaultyPartition => ∀ fault ∈ d.flash.aborts, fault = none where
  transfer _ _ hd := hd
  create _ := fun _ hd => by
    rw [Device.after_create]
    exact hd
  write _ _ := fun _ hd => by
    rw [Device.after_write]
    exact hd
  close _ := fun _ hd => by
    rw [Device.after_close]
    exact hd
  abort := fun _ hd => by
    rw [Device.after_abort]
    exact fun fault h => hd fault (List.mem_of_mem_tail h)
  setState _ := fun _ hd => by
    rw [Device.after_setState]
    exact hd

theorem keeps_tidy_of_same_or_busy {ε α : Type} {task : Task C FaultyPartition ε α}
    (haborts : Keeps (fun d => ∀ fault ∈ d.flash.aborts, fault = none) task)
    (h : ∀ d, task.after d = d ∨ (task.after d).transfer.phase ≠ .idle) : Keeps Tidy task := fun d hd => by
  rcases h d with hsame | hbusy
  · rw [hsame]
    exact hd
  · exact ⟨haborts d hd.aborts, fun hidle => absurd hidle hbusy⟩

theorem keptOutward_tidy : Device.KeptOutward (Tidy : Device C FaultyPartition → Prop) :=
  fun _ _ _ _ hd => ⟨hd.aborts, hd.idle⟩

theorem Partition.setState_of_empty {p : Partition} (state : ImageState) (hfile : p.file = none)
    (hslot : p.slot = .empty) : (p.setState state).2.file = none ∧ (p.setState state).2.slot = .empty := by
  unfold Partition.setState
  by_cases hmay : p.state.mayBecome state = true
  · rw [if_pos hmay]
    cases state with
    | aborted => exact ⟨rfl, rfl⟩
    | rejected => simp [hfile, hslot]
    | unknown | testing | accepted => exact ⟨hfile, hslot⟩
  · rw [if_neg hmay]
    exact ⟨hfile, hslot⟩

theorem FaultyPartition.setState_of_empty {f : FaultyPartition} (state : ImageState) (hfile : f.partition.file = none)
    (hslot : f.partition.slot = .empty) :
    (FlashDevice.setState f state).2.partition.file = none ∧
      (FlashDevice.setState f state).2.partition.slot = .empty := by
  simp only [FlashDevice.setState, setState, orElse]
  split
  · exact ⟨hfile, hslot⟩
  · exact Partition.setState_of_empty state hfile hslot

/-- **Discarding empties the partition**, unless the flash device refuses to abort. -/
theorem Transfer.clean_of_abandon {ε : Type} {d d' : Device C FaultyPartition} (hd : Tidy d)
    (h : (abandon : Task C FaultyPartition ε Unit) d = .ok () d') :
    Tidy d' ∧ d'.transfer = {} ∧ d'.flash.partition.file = none ∧ d'.flash.partition.slot = .empty := by
  have hd' : ∀ fault ∈ d'.flash.aborts, fault = none := (keeps_abandon keptInward_aborts).of_ok h hd.aborts
  by_cases hidle : d.transfer.phase = .idle
  · rw [abandon_of_idle hidle] at h
    cases h
    obtain ⟨hfile, hempty⟩ := hd.idle hidle
    have htransfer : d.transfer = {} := by
      rw [← hidle, ← hfile]
    exact ⟨hd, htransfer, hempty⟩
  obtain ⟨m, hrun, htransfer, -, hflash⟩ := abandon_of_not_idle hidle
  rw [h] at hrun
  cases hrun
  have haborted : (FlashDevice.abort d.flash).2.partition = d.flash.partition.discard := by
    have hnext : d.flash.aborts.head?.join = none := by
      cases haborts : d.flash.aborts with
      | nil => rfl
      | cons fault rest => exact hd.aborts fault (by simp [haborts])
    simp only [FlashDevice.abort, FaultyPartition.abort, hnext, FaultyPartition.orElse, Partition.abort]
  have hempty : d'.flash.partition.file = none ∧ d'.flash.partition.slot = .empty := by
    rcases hflash with hflash | hflash
    · rw [hflash, haborted]
      exact ⟨rfl, rfl⟩
    · rw [hflash]
      exact FaultyPartition.setState_of_empty .aborted (by rw [haborted]; rfl) (by rw [haborted]; rfl)
  exact ⟨⟨hd', fun _ => by rw [htransfer]; exact ⟨rfl, hempty⟩⟩, htransfer, hempty⟩

namespace Update

theorem keeps_tidy_setState (state : ImageState) :
    Keeps (Tidy : Device C FaultyPartition → Prop) (Device.setState state) := fun d hd => by
  rw [Device.after_setState]
  refine ⟨hd.aborts, fun hidle => ?_⟩
  obtain ⟨htransfer, hfile, hslot⟩ := hd.idle hidle
  exact ⟨htransfer, FaultyPartition.setState_of_empty state hfile hslot⟩

theorem keeps_tidy_activateNow : Keeps (Tidy : Device C FaultyPartition → Prop) Device.activate := fun d hd => by
  rw [Device.after_activate]
  refine ⟨hd.aborts, fun hidle => ?_⟩
  obtain ⟨htransfer, hempty⟩ := hd.idle hidle
  refine ⟨htransfer, ?_⟩
  simp only [Device.note, FlashDevice.activate, FaultyPartition.activate, FaultyPartition.orElse, Partition.activate]
  split
  · exact hempty
  · split <;> exact hempty

theorem keeping_tidy : Keeping (Tidy : Device C FaultyPartition → Prop) where
  outward := keptOutward_tidy
  begin file := keeps_tidy_of_same_or_busy (Transfer.keeps_begin keptInward_aborts file)
    (Transfer.begin_same_or_busy file)
  write offset block := keeps_tidy_of_same_or_busy (Transfer.keeps_write keptInward_aborts offset block)
    (Transfer.write_same_or_busy offset block)
  finish := keeps_tidy_of_same_or_busy (Transfer.keeps_finish keptInward_aborts) Transfer.finish_same_or_busy
  abandon _ := fun d hd => by
    obtain ⟨d', hrun⟩ := Transfer.abandon_eq_ok d
    rw [Task.after_of_ok hrun]
    exact (Transfer.clean_of_abandon hd hrun).1

theorem keeps_tidy_confirmBoot : Keeps (Tidy : Device C FaultyPartition → Prop) confirmBoot := by
  unfold confirmBoot
  refine keeps_bind (fun _ hd => hd) fun state => ?_
  split
  · exact keeps_pure _
  · exact keeps_bind (keeps_raising (keeps_tidy_setState _)) fun _ => keeps_pure _

variable [RangeSource C]

/-- The devices that the four operations of an update lead to, one after the other, whatever they are asked to do. -/
inductive Reaches (u : UpdateSettings) (d₀ : Device C FaultyPartition) : Device C FaultyPartition → Prop
  | start : Reaches u d₀ d₀
  | download (offer : Offer) {d} : Reaches u d₀ d → Reaches u d₀ ((download u offer).after d)
  | activate (ack : Option Ack) {d} :
      Reaches u d₀ d → Reaches u d₀ ((activate u ack : Task C FaultyPartition DeviceError UpdateError).after d)
  | confirmBoot {d} : Reaches u d₀ d → Reaches u d₀ (confirmBoot.after d)
  | rejectRunning {d} : Reaches u d₀ d → Reaches u d₀ (rejectRunning.after d)

theorem tidy_of_reaches {u : UpdateSettings} {d₀ d : Device C FaultyPartition} (h : Reaches u d₀ d) (h₀ : Tidy d₀) :
    Tidy d := by
  induction h with
  | start => exact h₀
  | download offer _ ih => exact keeps_download keeping_tidy u offer _ ih
  | activate ack _ ih =>
    refine keeps_activate keptOutward_tidy (keeping_tidy.abandon _) (fun ack d hd => ?_) keeps_tidy_activateNow
      u ack _ ih
    rw [Device.after_acknowledge]
    exact ⟨hd.aborts, hd.idle⟩
  | confirmBoot _ ih => exact keeps_tidy_confirmBoot _ ih
  | rejectRunning _ ih => exact keeps_raising (keeps_tidy_setState _) _ ih

/-- **A download that fails leaves nothing behind**, whatever happened before and wherever it fails. -/
theorem clean_of_download_error {u : UpdateSettings} {offer : Offer} {d₀ d d' : Device C FaultyPartition}
    {e : UpdateError} (hfresh : d₀.Fresh) (haborts : ∀ fault ∈ d₀.flash.aborts, fault = none)
    (hreach : Reaches u d₀ d) (h : download u offer d = .error e d') :
    ((∃ reason, e = .invalidUrl reason) ∧ d' = d) ∨
      ((∃ before wasOpen discarding,
          d'.calls = d.calls ++ (before ++ .disconnect wasOpen :: discarding) ∧
          ∀ call ∈ discarding, call.isInward = true) ∧
        d'.transfer = {} ∧ d'.flash.partition.file = none ∧ d'.flash.partition.image = [] ∧
        (∀ m, Device.activate d' ≠ .ok () m) ∧
        ∀ ack, (activate u ack : Task C FaultyPartition DeviceError UpdateError) d' = .ok .notValidated d') := by
  have hd : Tidy d := tidy_of_reaches hreach (hfresh.tidy haborts)
  obtain hinvalid | ⟨m, ⟨before, wasOpen, hm⟩, hkeep, habandon⟩ := download_eq_error h
  · exact .inl hinvalid
  right
  obtain ⟨-, htransfer, hfile, hslot⟩ := Transfer.clean_of_abandon (hkeep Tidy keeping_tidy hd) habandon
  obtain ⟨hcalls, hinward⟩ : ((Transfer.abandon : Task C FaultyPartition UpdateError Unit).after m).calls =
      m.calls ++ (Transfer.abandon : Task C FaultyPartition UpdateError Unit).made m ∧
      ∀ call ∈ (Transfer.abandon : Task C FaultyPartition UpdateError Unit).made m, call.isInward = true :=
    Transfer.calls_abandon m
  rw [Task.after_of_ok habandon, hm] at hcalls
  refine ⟨⟨before, wasOpen, _, ?_, hinward⟩, htransfer, hfile, ?_, fun m' hactivate => ?_, fun ack => ?_⟩
  · rw [hcalls]
    simp only [List.append_assoc, List.cons_append, List.nil_append]
  · unfold Partition.image
    rw [hslot]
    rfl
  · obtain ⟨-, hanswer, -⟩ := Device.calls_of_activate hactivate
    simp only [FlashDevice.activate, FaultyPartition.activate, FaultyPartition.orElse, Partition.activate,
      Partition.isClosed, hfile] at hanswer
    split at hanswer <;> cases hanswer
  · unfold activate
    rw [Device.bind_transferNow, htransfer]
    rfl

def plainOffer : Offer where
  url := ⟨"https://host/image", by decide⟩
  fileName := .empty
  version := ⟨"01.00.07", by decide⟩
  ackId := none
  digest := none

/-- A new device before a server that declares a size and then sends a body of another one. -/
def shortChanged : Device RehearsedSource FaultyPartition where
  source := { image := ⟨#[7, 8, 9]⟩, fetches := [.serve, .answer 206 none [7] 1] }
  flash := .sound {}
  uplink := { topic := .empty }

theorem clean_of_shortChanged : ∃ e d', download {} plainOffer (rejectRunning.after shortChanged) = .error e d' ∧
    d'.transfer = {} ∧ d'.flash.partition.file = none := by
  have hresult : (download {} plainOffer : Task RehearsedSource FaultyPartition _ _).result
      (rejectRunning.after shortChanged) = .error (.unexpectedBodySize 0 3 1) := by decide +kernel
  have hrun := Task.eq_error_of_result hresult
  have hfresh : shortChanged.Fresh := ⟨rfl, _, _, rfl⟩
  refine ⟨_, _, hrun, ?_⟩
  obtain ⟨⟨reason, hreason⟩, -⟩ | ⟨-, htransfer, hfile, -⟩ :=
    clean_of_download_error hfresh (fun _ h => by cases h) (.rejectRunning .start) hrun
  · cases hreason
  · exact ⟨htransfer, hfile⟩

end Update
end Firmware
