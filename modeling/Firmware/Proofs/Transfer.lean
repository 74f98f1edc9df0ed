import Firmware.Proofs.Device
import Firmware.Proofs.Partition
/-!
# Transfer — a transfer and its partition in step

While a transfer is receiving, its own count and the partition's record speak of the same file and of the same octets
(`InStep`).  Opening a file puts them in step, a block that is written keeps them in step, and a file that is finished
is closed, verified and on trial.  Without faults to come each of these steps goes well.
-/
namespace Firmware

/-- A device that was just switched on: no transfer, and nothing in the partition. -/
structure Device.Fresh {C : Type} (d : Device C FaultyPartition) : Prop where
  transfer : d.transfer = {}
  partition : ∃ capacity state, d.flash.partition = { capacity, state }

theorem keptInward_capacity {C : Type} (capacity : Nat) :
    Device.KeptInward fun d : Device C FaultyPartition => d.flash.partition.capacity = capacity where
  transfer _ _ hd := hd
  create file := fun d hd => by
    rw [Device.after_create]
    exact (FaultyPartition.capacity_orElse _ _ (Partition.capacity_create _ file)).trans hd
  write offset block := fun d hd => by
    rw [Device.after_write]
    exact (FaultyPartition.capacity_write _ offset block).trans hd
  close file := fun d hd => by
    rw [Device.after_close]
    exact (FaultyPartition.capacity_orElse _ _ (Partition.capacity_close _ file)).trans hd
  abort := fun d hd => by
    rw [Device.after_abort]
    have habort : d.flash.partition.abort.2.capacity = d.flash.partition.capacity := rfl
    exact (FaultyPartition.capacity_orElse _ _ habort).trans hd
  setState state := fun d hd => by
    rw [Device.after_setState]
    exact (FaultyPartition.capacity_orElse _ _ (Partition.capacity_setState _ state)).trans hd

namespace Transfer

/-! ## What a step of a transfer can end with -/

/-- Why a block does not fit a transfer, if it does not. -/
def misfit? (phase : Phase) (offset : UInt32) (block : Bytes) : Option UpdateError :=
  match phase with
  | .receiving expected written =>
    if offset = written then
      if expected < saturatingAdd written (UInt32.ofNat block.length) then some .overflow else none
    else some (.nonSequential written offset)
  | .idle | .validating | .ready | .failed => some .notReceiving

theorem misfit?_eq_none {phase : Phase} {offset : UInt32} {block : Bytes} :
    misfit? phase offset block = none ↔
      ∃ expected, phase = .receiving expected offset ∧
        ¬ expected < saturatingAdd offset (UInt32.ofNat block.length) := by
  cases phase with
  | receiving expected written =>
    simp only [misfit?, Phase.receiving.injEq]
    by_cases hoffset : offset = written
    · subst hoffset
      rw [if_pos rfl]
      by_cases hoverflow : expected < saturatingAdd offset (UInt32.ofNat block.length)
      · rw [if_pos hoverflow]
        constructor
        · intro h
          cases h
        · rintro ⟨_, ⟨rfl, -⟩, hfits⟩
          exact absurd hoverflow hfits
      · rw [if_neg hoverflow]
        exact ⟨fun _ => ⟨expected, ⟨rfl, rfl⟩, hoverflow⟩, fun _ => rfl⟩
    · rw [if_neg hoffset]
      constructor
      · intro h
        cases h
      · rintro ⟨_, ⟨-, hwritten⟩, -⟩
        exact absurd hwritten.symm hoffset
  | idle | validating | ready | failed => simp [misfit?]

theorem misfit?_of_ne {expected written offset : UInt32} (h : offset ≠ written) (block : Bytes) :
    misfit? (.receiving expected written) offset block = some (.nonSequential written offset) := if_neg h

theorem misfit?_of_overflow {expected offset : UInt32} {block : Bytes}
    (h : expected < saturatingAdd offset (UInt32.ofNat block.length)) :
    misfit? (.receiving expected offset) offset block = some .overflow := (if_pos rfl).trans (if_pos h)

/-- What the flash device's answer to a write fails the transfer with, if it does. -/
def fault? (offset : UInt32) (block : Bytes) : Except FlashError Nat → Option UpdateError
  | .error fault => some (.flash fault)
  | .ok taken =>
    if taken = block.length then none
    else some (.shortWrite offset (UInt32.ofNat block.length) (UInt32.ofNat taken))

section Steps

variable {C F : Type} [FlashDevice F] {d d' : Device C F} {e : UpdateError}

/-- **A file is opened only when no transfer is under way**, and the bookkeeping starts at its first octet. -/
theorem begin_eq_ok {file : ReceiveFile} (h : begin file d = .ok () d') :
    file.size ≠ 0 ∧ FlashDevice.create d.flash file = (.ok (), d'.flash) ∧
      d'.transfer = { phase := .receiving file.size 0, file := some file } ∧
      d'.calls = d.calls ++ [.create file (.ok ())] := by
  unfold begin at h
  rw [Device.bind_transferNow] at h
  simp only [Task.throw_bind] at h
  split at h
  · cases h
  split at h
  · cases h
  rename_i hsize
  rw [Task.bind_of_ok (Device.attempt_create file d)] at h
  rcases hcreate : FlashDevice.create d.flash file with ⟨answer, flash⟩
  simp only [hcreate] at h
  cases answer with
  | error e => cases h
  | ok _ =>
    cases h
    exact ⟨hsize, rfl, rfl, Device.calls_note _ _⟩

theorem begin_eq_error {file : ReceiveFile} (h : begin file d = .error e d') :
    (d' = d ∧ (e = .alreadyInProgress ∨ e = .emptyImage)) ∨
      d'.transfer = { phase := .failed, file := some file } ∧ ∃ fault, e = .flash fault := by
  unfold begin at h
  rw [Device.bind_transferNow] at h
  simp only [Task.throw_bind] at h
  split at h
  · cases h
    exact .inl ⟨rfl, .inl rfl⟩
  split at h
  · cases h
    exact .inl ⟨rfl, .inr rfl⟩
  rw [Task.bind_of_ok (Device.attempt_create file d)] at h
  rcases hcreate : FlashDevice.create d.flash file with ⟨answer, flash⟩
  simp only [hcreate] at h
  cases answer with
  | error fault =>
    cases h
    exact .inr ⟨rfl, fault, rfl⟩
  | ok _ => cases h

/-- **A block is written only if it fits**, and only when it is taken whole. -/
theorem write_eq_ok {offset n : UInt32} {block : Bytes} (h : write offset block d = .ok n d') :
    misfit? d.transfer.phase offset block = none ∧
      FlashDevice.write d.flash offset block = (.ok block.length, d'.flash) ∧
      (∀ expected, d.transfer.phase = .receiving expected offset → d'.transfer =
        { phase := .receiving expected (offset + UInt32.ofNat block.length), file := d.transfer.file }) ∧
      d'.calls = d.calls ++ [.write offset block (.ok block.length)] := by
  unfold write at h
  rw [Device.bind_transferNow] at h
  simp only [Task.throw_bind] at h
  cases hphase : d.transfer.phase with
  | receiving expected written =>
    simp only [hphase] at h
    split at h
    · cases h
    rename_i hoffset
    obtain rfl := Decidable.not_not.1 hoffset
    split at h
    · cases h
    rename_i hfits
    rw [Task.bind_of_ok (Device.attempt_write offset block d)] at h
    rcases hwrite : FlashDevice.write d.flash offset block with ⟨answer, flash⟩
    simp only [hwrite] at h
    cases answer with
    | error e => cases h
    | ok taken =>
      simp only at h
      split at h
      · cases h
      rename_i htaken
      obtain rfl := Decidable.not_not.1 htaken
      cases h
      refine ⟨misfit?_eq_none.2 ⟨expected, rfl, hfits⟩, rfl, fun expected' hreceiving => ?_, Device.calls_note _ _⟩
      obtain ⟨rfl, -⟩ := Phase.receiving.inj hreceiving
      rfl
  | idle | validating | ready | failed =>
    simp only [hphase] at h
    cases h

/-- **A block that is not written** did not fit, or the transfer failed with what the flash device answered. -/
theorem write_eq_error {offset : UInt32} {block : Bytes} (h : write offset block d = .error e d') :
    (d' = d ∧ misfit? d.transfer.phase offset block = some e) ∨
      misfit? d.transfer.phase offset block = none ∧
        d'.transfer = { phase := .failed, file := d.transfer.file } ∧
        ∃ answer, d'.calls = d.calls ++ [.write offset block answer] ∧ fault? offset block answer = some e := by
  unfold write at h
  rw [Device.bind_transferNow] at h
  simp only [Task.throw_bind] at h
  cases hphase : d.transfer.phase with
  | receiving expected written =>
    simp only [hphase] at h
    split at h
    · rename_i hoffset
      cases h
      exact .inl ⟨rfl, if_neg hoffset⟩
    rename_i hoffset
    obtain rfl := Decidable.not_not.1 hoffset
    split at h
    · rename_i hoverflow
      cases h
      exact .inl ⟨rfl, (if_pos rfl).trans (if_pos hoverflow)⟩
    rename_i hfits
    rw [Task.bind_of_ok (Device.attempt_write offset block d)] at h
    rcases hwrite : FlashDevice.write d.flash offset block with ⟨answer, flash⟩
    simp only [hwrite] at h
    refine .inr ⟨misfit?_eq_none.2 ⟨expected, rfl, hfits⟩, ?_⟩
    cases answer with
    | error fault =>
      cases h
      exact ⟨rfl, _, Device.calls_note _ _, rfl⟩
    | ok taken =>
      simp only at h
      split at h
      · rename_i htaken
        cases h
        exact ⟨rfl, _, Device.calls_note _ _, if_neg htaken⟩
      · cases h
  | idle | validating | ready | failed =>
    simp only [hphase] at h
    cases h
    exact .inl ⟨rfl, rfl⟩

theorem write_of_misfit {offset : UInt32} {block : Bytes} (h : misfit? d.transfer.phase offset block = some e) :
    write offset block d = .error e d := by
  rcases hrun : write offset block d with ⟨n, d'⟩ | ⟨e', d'⟩
  · obtain ⟨hfits, -⟩ := write_eq_ok hrun
    rw [hfits] at h
    cases h
  · obtain ⟨rfl, hmisfit⟩ | ⟨hfits, -⟩ := write_eq_error hrun
    · rw [hmisfit] at h
      cases h
      rfl
    · rw [hfits] at h
      cases h

theorem write_of_fits {expected offset : UInt32} {block : Bytes} (hphase : d.transfer.phase = .receiving expected offset)
    (hfits : ¬ expected < saturatingAdd offset (UInt32.ofNat block.length)) :
    ((write offset block).after d).calls =
        d.calls ++ [.write offset block (FlashDevice.write d.flash offset block).1] ∧
      ((FlashDevice.write d.flash offset block).1 = .ok block.length →
        (write offset block).result d = .ok (offset + UInt32.ofNat block.length) ∧
          ((write offset block).after d).transfer.phase =
            .receiving expected (offset + UInt32.ofNat block.length)) := by
  unfold write
  rw [Task.after_congr (Device.bind_transferNow _ d), Task.result_congr (Device.bind_transferNow _ d)]
  simp only [Task.throw_bind, hphase, ne_eq, not_true_eq_false, if_false, hfits]
  rw [Task.after_congr (Task.bind_of_ok (Device.attempt_write offset block d)),
    Task.result_congr (Task.bind_of_ok (Device.attempt_write offset block d))]
  rcases hwrite : FlashDevice.write d.flash offset block with ⟨_ | taken, flash⟩
  · exact ⟨Device.calls_note _ _, nofun⟩
  · by_cases htaken : taken = block.length
    · simp only [htaken, not_true_eq_false, if_false]
      exact ⟨Device.calls_note _ _, fun _ => ⟨rfl, rfl⟩⟩
    · simp only [htaken, not_false_eq_true, if_true]
      exact ⟨Device.calls_note _ _, fun h => absurd (Except.ok.inj h) htaken⟩

/-- **A transfer finishes only when it is full**, after its file was closed and marked as on trial. -/
theorem finish_eq_ok (h : finish d = .ok () d') :
    ∃ file expected flash, d.transfer = { phase := .receiving expected expected, file := some file } ∧
      FlashDevice.close d.flash file = (.ok (), flash) ∧
      FlashDevice.setState flash .testing = (.ok (), d'.flash) ∧
      d'.transfer = { phase := .ready, file := some file } ∧
      d'.calls = d.calls ++ [.close file (.ok ()), .setState .testing (.ok ())] := by
  unfold finish at h
  rw [Device.bind_transferNow] at h
  simp only [Task.throw_bind] at h
  obtain ⟨source, flash, ⟨phase, current⟩, uplink, leds, journal⟩ := d
  cases phase with
  | receiving expected written =>
    simp only at h
    split at h
    · cases h
    rename_i hfull
    obtain rfl := Decidable.not_not.1 hfull
    cases current with
    | none => cases h
    | some file =>
      simp only at h
      rw [Device.bind_setPhase, Task.bind_of_ok (Device.attempt_close file _)] at h
      rcases hclose : FlashDevice.close flash file with ⟨answer, flash'⟩
      simp only [hclose] at h
      cases answer with
      | error e =>
        simp only [Task.bind_discard_attempt] at h
        cases h
      | ok _ =>
        simp only at h
        rw [Task.bind_of_ok (Device.attempt_setState .testing _)] at h
        rcases hstate : FlashDevice.setState flash' .testing with ⟨answer, flash''⟩
        simp only [Device.note, hstate] at h
        cases answer with
        | error e => cases h
        | ok _ =>
          cases h
          exact ⟨file, written, flash', rfl, hclose, hstate, rfl, by simp [Device.calls]⟩
  | idle | validating | ready | failed => cases h

theorem finish_eq_error (h : finish d = .error e d') :
    (d' = d ∧ (e = .notReceiving ∨ ∃ expected written, e = .incompleteTransfer expected written)) ∨
      (∃ expected, d.transfer.phase = .receiving expected expected) ∧
        d'.transfer = { phase := .failed, file := d.transfer.file } ∧ ∃ fault, e = .flash fault := by
  unfold finish at h
  rw [Device.bind_transferNow] at h
  simp only [Task.throw_bind] at h
  cases hphase : d.transfer.phase with
  | receiving expected written =>
    simp only [hphase] at h
    split at h
    · cases h
      exact .inl ⟨rfl, .inr ⟨expected, written, rfl⟩⟩
    rename_i hfull
    obtain rfl := Decidable.not_not.1 hfull
    cases hfile : d.transfer.file with
    | none =>
      simp only [hfile] at h
      cases h
      exact .inl ⟨rfl, .inl rfl⟩
    | some file =>
      simp only [hfile] at h
      refine .inr ⟨⟨written, rfl⟩, ?_⟩
      rw [Device.bind_setPhase, Task.bind_of_ok (Device.attempt_close file _)] at h
      rcases hclose : FlashDevice.close d.flash file with ⟨answer, flash⟩
      simp only [hclose] at h
      cases answer with
      | error fault =>
        simp only [Task.bind_discard_attempt, Device.after_setState] at h
        cases h
        exact ⟨by simp [Device.note, hfile], fault, rfl⟩
      | ok _ =>
        simp only at h
        rw [Task.bind_of_ok (Device.attempt_setState .testing _)] at h
        rcases hstate : FlashDevice.setState flash .testing with ⟨answer, flash'⟩
        simp only [Device.note, hstate] at h
        cases answer with
        | error fault =>
          cases h
          exact ⟨by simp [hfile], fault, rfl⟩
        | ok _ => cases h
  | idle | validating | ready | failed =>
    simp only [hphase] at h
    cases h
    exact .inl ⟨rfl, .inl rfl⟩

end Steps

/-! ## Discarding -/

theorem free_of_idle {t : Transfer} (h : t.phase = .idle) : t.isActive = false := by
  simp only [isActive, h]

section Abandon

variable {C F ε : Type} [FlashDevice F] {d : Device C F}

theorem abandon_of_idle (h : d.transfer.phase = .idle) : (abandon : Task C F ε Unit) d = .ok () d := by
  unfold abandon
  rw [Device.bind_transferNow]
  simp only [h, if_true]
  rfl

/-- **A transfer that is not idle is discarded for good**: the flash device is told to abort and, where the state
allows it, to mark the image aborted. -/
theorem abandon_of_not_idle (h : d.transfer.phase ≠ .idle) :
    ∃ d', (abandon : Task C F ε Unit) d = .ok () d' ∧ d'.transfer = {} ∧ d'.source = d.source ∧
      (d'.flash = (FlashDevice.abort d.flash).2 ∨
        d'.flash = (FlashDevice.setState (FlashDevice.abort d.flash).2 .aborted).2) := by
  unfold abandon
  rw [Device.bind_transferNow]
  simp only [h, if_false]
  rw [Task.bind_discard_attempt, Device.after_abort, Device.bind_imageState]
  split
  · rw [Task.bind_discard_attempt, Device.after_setState]
    exact ⟨_, rfl, rfl, rfl, .inr rfl⟩
  · exact ⟨_, rfl, rfl, rfl, .inl rfl⟩

theorem idle_of_abandon {d' : Device C F} (h : (abandon : Task C F ε Unit) d = .ok () d') :
    d'.transfer.phase = .idle := by
  by_cases hidle : d.transfer.phase = .idle
  · rw [abandon_of_idle hidle] at h
    cases h
    exact hidle
  · obtain ⟨m, hrun, htransfer, -⟩ := abandon_of_not_idle (ε := ε) hidle
    rw [h] at hrun
    cases hrun
    rw [htransfer]

theorem abandon_eq_ok (d : Device C F) : ∃ d', (abandon : Task C F ε Unit) d = .ok () d' := by
  by_cases h : d.transfer.phase = .idle
  · exact ⟨d, abandon_of_idle h⟩
  · obtain ⟨d', hrun, -⟩ := abandon_of_not_idle h
    exact ⟨d', hrun⟩

end Abandon

/-! ## In step -/

variable {C ε : Type}

/-- The transfer receives `file`, the partition has it open, and both know that `image` is what was written so far. -/
structure InStep (file : ReceiveFile) (image : Bytes) (d : Device C FaultyPartition) : Prop where
  phase : d.transfer.phase = .receiving file.size (UInt32.ofNat image.length)
  current : d.transfer.file = some file
  receives : d.flash.partition.Receives file image
  state : d.flash.partition.state = .unknown

theorem keptOutward_inStep (file : ReceiveFile) (image : Bytes) :
    Device.KeptOutward (InStep file image : Device C FaultyPartition → Prop) :=
  fun _ _ _ _ h => ⟨h.phase, h.current, h.receives, h.state⟩

/-- **A transfer that begins is in step, with nothing written yet.** -/
theorem inStep_begin {file : ReceiveFile} {d d' : Device C FaultyPartition} (h : begin file d = .ok () d') :
    InStep file [] d' ∧ d'.calls = d.calls ++ [.create file (.ok ())] := by
  obtain ⟨-, hcreate, htransfer, hcalls⟩ := begin_eq_ok h
  obtain ⟨hreceives, hstate, -, -⟩ := Partition.create_eq_ok (FaultyPartition.create_eq_ok hcreate)
  refine ⟨⟨?_, ?_, hreceives, hstate⟩, hcalls⟩
  · rw [htransfer]
    rfl
  · rw [htransfer]

/-- **A block that is written continues the image.** -/
theorem InStep.write {file : ReceiveFile} {image : Bytes} {d d' : Device C FaultyPartition} (hin : InStep file image d)
    {offset : UInt32} {block : Bytes} {n : UInt32} (h : Transfer.write offset block d = .ok n d') :
    InStep file (image ++ block) d' ∧ d'.calls = d.calls ++ [.write offset block (.ok block.length)] := by
  obtain ⟨hfits, hwrite, htransfer, hcalls⟩ := write_eq_ok h
  obtain ⟨expected, hphase, -⟩ := misfit?_eq_none.1 hfits
  obtain ⟨rfl, rfl⟩ := Phase.receiving.inj (hin.phase.symm.trans hphase)
  obtain ⟨hreceives, -, hstate, -⟩ := hin.receives.write (FaultyPartition.write_eq_ok hwrite)
  refine ⟨⟨?_, ?_, hreceives, hstate.trans hin.state⟩, hcalls⟩
  · rw [htransfer _ hphase, List.length_append, UInt32.ofNat_add]
  · rw [htransfer _ hphase]
    exact hin.current

/-- **A transfer that finishes has its whole image, closed and verified.** -/
theorem InStep.finish {file : ReceiveFile} {image : Bytes} {d d' : Device C FaultyPartition} (hin : InStep file image d)
    (h : Transfer.finish d = .ok () d') :
    d'.transfer = { phase := .ready, file := some file } ∧ d'.flash.partition.isClosed = true ∧
      d'.flash.partition.image = image ∧ image.length = file.size.toNat ∧
      (∀ signature, file.signature = some signature → Sha256.digest image = signature.data) ∧
      d'.calls = d.calls ++ [.close file (.ok ()), .setState .testing (.ok ())] := by
  obtain ⟨current, expected, flash, hfull, hclose, hstate, htransfer, hcalls⟩ := finish_eq_ok h
  have hcurrent := hin.current
  rw [hfull] at hcurrent
  obtain rfl := Option.some.inj hcurrent
  obtain ⟨hclosed, himage, hlength, -, hsigned⟩ := hin.receives.close (FaultyPartition.close_eq_ok hclose)
  have htesting := Partition.setState_testing_eq_ok (FaultyPartition.setState_eq_ok hstate)
  refine ⟨htransfer, ?_, ?_, hlength, hsigned, hcalls⟩
  · rw [htesting]
    exact hclosed
  · rw [htesting]
    exact himage

/-! ## Without faults to come -/

structure Undisturbed (d d' : Device C FaultyPartition) : Prop where
  source : d'.source = d.source
  capacity : d'.flash.partition.capacity = d.flash.partition.capacity
  sound : d'.flash = .sound d'.flash.partition

/-- **A file that has room is opened**, if the flash device does not refuse just this. -/
theorem begin_of_unfaulted {file : ReceiveFile} {d : Device C FaultyPartition}
    (hnext : d.flash.creates.head?.join = none) (hfree : d.transfer.isActive = false) (hsize : file.size ≠ 0)
    (hroom : file.size.toNat ≤ d.flash.partition.capacity) :
    ∃ d' q, begin file d = .ok () d' ∧ d'.source = d.source ∧ q.capacity = d.flash.partition.capacity ∧
      d'.flash = { d.flash with partition := q, creates := d.flash.creates.tail } := by
  obtain ⟨q, hq⟩ := d.flash.partition.create_of_room hroom
  have hcreate : FlashDevice.create d.flash file =
      (.ok (), { d.flash with partition := q, creates := d.flash.creates.tail }) :=
    FaultyPartition.create_of_unfaulted hnext hq
  obtain ⟨-, -, hcapacity, -⟩ := Partition.create_eq_ok hq
  unfold begin
  rw [Device.bind_transferNow]
  simp only [hfree, hsize, if_false, Bool.false_eq_true]
  rw [Task.bind_of_ok (Device.attempt_create file d), hcreate]
  exact ⟨_, q, rfl, rfl, hcapacity, rfl⟩

theorem begin_of_sound {file : ReceiveFile} {d : Device C FaultyPartition} (hsound : d.flash = .sound d.flash.partition)
    (hfree : d.transfer.isActive = false) (hsize : file.size ≠ 0)
    (hroom : file.size.toNat ≤ d.flash.partition.capacity) :
    ∃ d', begin file d = .ok () d' ∧ Undisturbed d d' := by
  have hnext : d.flash.creates.head?.join = none := by
    rw [hsound]
    rfl
  obtain ⟨d', q, hbegin, hsource, hcapacity, hflash⟩ := begin_of_unfaulted hnext hfree hsize hroom
  refine ⟨d', hbegin, hsource, ?_, ?_⟩
  · rw [hflash]
    exact hcapacity
  · rw [hflash, hsound]
    rfl

theorem InStep.write_of_sound {file : ReceiveFile} {image : Bytes} {d : Device C FaultyPartition}
    (hin : InStep file image d) (hsound : d.flash = .sound d.flash.partition)
    (hroom : file.size.toNat ≤ d.flash.partition.capacity) {block : Bytes}
    (hfits : image.length + block.length ≤ file.size.toNat) :
    ∃ n d', Transfer.write (UInt32.ofNat image.length) block d = .ok n d' ∧ Undisturbed d d' := by
  obtain ⟨q, hq⟩ := hin.receives.write_whole hfits hroom
  have hwrite : FlashDevice.write d.flash (UInt32.ofNat image.length) block = (.ok block.length, .sound q) := by
    rw [hsound]
    exact FaultyPartition.write_sound hq
  obtain ⟨-, -, -, hcapacity⟩ := hin.receives.write hq
  have hlt := file.size.toNat_lt
  have hsize : UInt32.size = 4294967296 := rfl
  have hblock : (UInt32.ofNat block.length).toNat = block.length := UInt32.toNat_ofNat_of_lt' (by omega)
  have hsum : ¬ file.size < saturatingAdd (UInt32.ofNat image.length) (UInt32.ofNat block.length) := by
    unfold saturatingAdd
    rw [hin.receives.written_toNat, hblock, if_pos (by omega), UInt32.lt_iff_toNat_lt, UInt32.toNat_add,
      hin.receives.written_toNat, hblock, Nat.mod_eq_of_lt (by omega)]
    omega
  unfold Transfer.write
  rw [Device.bind_transferNow, hin.phase]
  simp only [ne_eq, not_true_eq_false, if_false, hsum]
  rw [Task.bind_of_ok (Device.attempt_write _ block d), hwrite]
  simp only [not_true_eq_false, if_false]
  exact ⟨_, _, rfl, rfl, hcapacity, rfl⟩

theorem InStep.finish_of_sound {file : ReceiveFile} {image : Bytes} {d : Device C FaultyPartition}
    (hin : InStep file image d) (hsound : d.flash = .sound d.flash.partition)
    (hfull : image.length = file.size.toNat)
    (hsigned : ∀ signature, file.signature = some signature →
      signature.certPath.isEmpty = false ∧ Sha256.digest image = signature.data) :
    ∃ d', Transfer.finish d = .ok () d' ∧ d'.flash = .sound d'.flash.partition := by
  obtain ⟨q, hq⟩ := hin.receives.close_complete hfull hsigned
  have hclose : FlashDevice.close d.flash file = (.ok (), .sound q) := by
    rw [hsound]
    exact FaultyPartition.close_sound hq
  obtain ⟨-, -, -, hstate, -⟩ := hin.receives.close hq
  have htesting : FlashDevice.setState (FaultyPartition.sound q) .testing =
      (.ok (), .sound { q with state := .testing }) :=
    FaultyPartition.setState_sound (Partition.setState_testing (hstate.trans hin.state))
  have hwritten : UInt32.ofNat image.length = file.size := by
    rw [← UInt32.toNat_inj, hin.receives.written_toNat, hfull]
  unfold Transfer.finish
  rw [Device.bind_transferNow, hin.phase]
  simp only [hwritten, ne_eq, not_true_eq_false, if_false, hin.current]
  rw [Device.bind_setPhase, Task.bind_of_ok (Device.attempt_close file _)]
  simp only [hclose]
  rw [Task.bind_of_ok (Device.attempt_setState .testing _)]
  simp only [Device.note, htesting]
  exact ⟨_, rfl, rfl⟩

end Transfer
end Firmware
