import Firmware.Proofs.Transfer
/-!
# Step — what one request to a transfer does

A request to a transfer leaves the device as it was, or does one of the things that `Step` lists: what the flash device
was asked, what it answered, and where the transfer stands then.  A property of devices that every `Step` keeps is kept
by all that an update is made of (`Update.Keeping.of_step`).
-/
open Firmware.Task (Keeps)

namespace Firmware

namespace Transfer

variable {C F : Type} [FlashDevice F]

/-- All that a request can do to a device, one constructor for each way it can go. -/
inductive Step (d : Device C F) : Device C F → Prop
  | opened {file : ReceiveFile} {flash : F} (answered : FlashDevice.create d.flash file = (.ok (), flash)) :
      Step d ({ d with flash, transfer := { phase := .receiving file.size 0, file := some file } }.note
        (.create file (.ok ())))
  | unopened {file : ReceiveFile} {flash : F} {e : FlashError}
      (answered : FlashDevice.create d.flash file = (.error e, flash)) :
      Step d ({ d with flash, transfer := { phase := .failed, file := some file } }.note (.create file (.error e)))
  | written {expected offset : UInt32} {block : Bytes} {flash : F} {answer : Except FlashError Nat} {phase : Phase}
      (receiving : d.transfer.phase = .receiving expected offset)
      (answered : FlashDevice.write d.flash offset block = (answer, flash))
      (outcome : (∃ count, phase = .receiving expected count) ∨ phase = .failed) :
      Step d ({ d with flash, transfer := { d.transfer with phase } }.note (.write offset block answer))
  | finished {size : UInt32} {file : ReceiveFile} {closed flash : F}
      (full : d.transfer = { phase := .receiving size size, file := some file })
      (answered : FlashDevice.close d.flash file = (.ok (), closed))
      (marked : FlashDevice.setState closed .testing = (.ok (), flash)) :
      Step d (({ d with flash, transfer := { phase := .ready, file := some file } }.note (.close file (.ok ()))).note
        (.setState .testing (.ok ())))
  | unmarked {size : UInt32} {file : ReceiveFile} {closed flash : F} {e : FlashError}
      (full : d.transfer = { phase := .receiving size size, file := some file })
      (answered : FlashDevice.close d.flash file = (.ok (), closed))
      (marked : FlashDevice.setState closed .testing = (.error e, flash)) :
      Step d (({ d with flash, transfer := { phase := .failed, file := some file } }.note (.close file (.ok ()))).note
        (.setState .testing (.error e)))
  | rejected {size : UInt32} {file : ReceiveFile} {closed flash : F} {e : FlashError} {answer : Except FlashError Unit}
      (full : d.transfer = { phase := .receiving size size, file := some file })
      (answered : FlashDevice.close d.flash file = (.error e, closed))
      (marked : FlashDevice.setState closed .rejected = (answer, flash)) :
      Step d (({ d with flash, transfer := { phase := .failed, file := some file } }.note (.close file (.error e))).note
        (.setState .rejected answer))
  | dropped {flash : F} {answer : Except FlashError Unit} (busy : d.transfer.phase ≠ .idle)
      (answered : FlashDevice.abort d.flash = (answer, flash))
      (terminal : (FlashDevice.state flash).mayBecome .aborted = false) :
      Step d ({ d with flash, transfer := {} }.note (.abort answer))
  | discarded {aborted flash : F} {answer answer' : Except FlashError Unit} (busy : d.transfer.phase ≠ .idle)
      (answered : FlashDevice.abort d.flash = (answer, aborted))
      (open_ : (FlashDevice.state aborted).mayBecome .aborted = true)
      (marked : FlashDevice.setState aborted .aborted = (answer', flash)) :
      Step d (({ d with flash, transfer := {} }.note (.abort answer)).note (.setState .aborted answer'))

/-! Each of the four requests does nothing or one step. -/

theorem begin_same_or_step (file : ReceiveFile) (d : Device C F) :
    (begin file : Task C F UpdateError Unit).after d = d ∨
      Step d ((begin file : Task C F UpdateError Unit).after d) := by
  unfold begin
  rw [Task.after_congr (Device.bind_transferNow _ d)]
  simp only [Task.throw_bind]
  split
  · exact .inl rfl
  split
  · exact .inl rfl
  rw [Task.after_bind_of_ok (Device.attempt_create file d)]
  rcases hcreate : FlashDevice.create d.flash file with ⟨_ | _, flash⟩
  · exact .inr (.unopened hcreate)
  · exact .inr (.opened hcreate)

theorem write_same_or_step (offset : UInt32) (block : Bytes) (d : Device C F) :
    (write offset block : Task C F UpdateError UInt32).after d = d ∨
      Step d ((write offset block : Task C F UpdateError UInt32).after d) := by
  unfold write
  rw [Task.after_congr (Device.bind_transferNow _ d)]
  simp only [Task.throw_bind]
  cases hphase : d.transfer.phase with
  | receiving expected written =>
    simp only
    split
    · exact .inl rfl
    rename_i hoffset
    obtain rfl := Decidable.not_not.1 hoffset
    split
    · exact .inl rfl
    rw [Task.after_bind_of_ok (Device.attempt_write offset block d)]
    rcases hwrite : FlashDevice.write d.flash offset block with ⟨_ | taken, flash⟩
    · exact .inr (.written hphase hwrite (.inr rfl))
    · simp only
      split
      · exact .inr (.written hphase hwrite (.inr rfl))
      · exact .inr (.written hphase hwrite (.inl ⟨_, rfl⟩))
  | idle | validating | ready | failed => exact .inl rfl

theorem finish_same_or_step (d : Device C F) :
    (finish : Task C F UpdateError Unit).after d = d ∨ Step d ((finish : Task C F UpdateError Unit).after d) := by
  obtain ⟨source, flash, ⟨phase, file⟩, uplink, leds, journal⟩ := d
  unfold finish
  rw [Task.after_congr (Device.bind_transferNow _ _)]
  simp only [Task.throw_bind]
  cases phase with
  | receiving expected written =>
    simp only
    split
    · exact .inl rfl
    rename_i hfull
    obtain rfl := Decidable.not_not.1 hfull
    cases file with
    | none => exact .inl rfl
    | some file =>
      simp only
      rw [Task.after_congr (Device.bind_setPhase _ _ _), Task.after_bind_of_ok (Device.attempt_close file _)]
      rcases hclose : FlashDevice.close flash file with ⟨_ | _, closed⟩
      · simp only
        rw [Task.after_congr (Task.bind_discard_attempt _ _ _), Device.after_setState]
        exact .inr (.rejected rfl hclose rfl)
      · simp only
        rw [Task.after_bind_of_ok (Device.attempt_setState .testing _)]
        rcases hstate : FlashDevice.setState closed .testing with ⟨_ | _, flash'⟩
        · simp only [Device.note, hstate]
          exact .inr (.unmarked rfl hclose hstate)
        · simp only [Device.note, hstate]
          exact .inr (.finished rfl hclose hstate)
  | idle | validating | ready | failed => exact .inl rfl

theorem abandon_same_or_step {ε : Type} (d : Device C F) :
    (abandon : Task C F ε Unit).after d = d ∨ Step d ((abandon : Task C F ε Unit).after d) := by
  unfold abandon
  rw [Task.after_congr (Device.bind_transferNow _ d)]
  split
  · exact .inl rfl
  rename_i hbusy
  rw [Task.after_congr (Task.bind_discard_attempt _ _ _), Device.after_abort,
    Task.after_congr (Device.bind_imageState _ _)]
  split
  · rename_i hmay
    rw [Task.after_congr (Task.bind_discard_attempt _ _ _), Device.after_setState]
    exact .inr (.discarded hbusy rfl hmay rfl)
  · rename_i hmay
    exact .inr (.dropped hbusy rfl (by simpa using hmay))

end Transfer

/-- **What every step of a transfer keeps, an update keeps.** -/
theorem Update.Keeping.of_step {C F : Type} [FlashDevice F] {P : Device C F → Prop} (hout : Device.KeptOutward P)
    (hstep : ∀ d d', P d → Transfer.Step d d' → P d') : Update.Keeping P := by
  have of_same_or_step {ε α : Type} {task : Task C F ε α}
      (h : ∀ d, task.after d = d ∨ Transfer.Step d (task.after d)) : Keeps P task := fun d hd => by
    rcases h d with hsame | hdone
    · rw [hsame]
      exact hd
    · exact hstep _ _ hd hdone
  exact
    { outward := hout
      begin := fun file => of_same_or_step (Transfer.begin_same_or_step file)
      write := fun offset block => of_same_or_step (Transfer.write_same_or_step offset block)
      finish := of_same_or_step Transfer.finish_same_or_step
      abandon := fun _ => of_same_or_step Transfer.abandon_same_or_step }

end Firmware
