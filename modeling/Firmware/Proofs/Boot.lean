import Firmware.Proofs.Running
/-!
# Boot — whose state the boot decision reads

The partition keeps one image state.  After a boot it is the state of the running image; once a receive file was opened
it is the state of the image received.  So messages that ask for no file leave the boot decision as it was, and after a
file was opened the decision is about the received image, whatever is refused later.  Where every file was refused, the
decision is as it was unless the running image is on trial (`boot_decision`).
-/
open Firmware.Task (Keeps)

namespace Firmware

def Call.opening? : Call → Option (Except FlashError Unit)
  | .create _ answer => some answer
  | _ => none

theorem Call.opening?_of_isOutward {call : Call} (h : call.isOutward = true) : call.opening? = none := by
  cases call <;> first | rfl | cases h

/-! ## Between two messages -/

section Resting

variable {C : Type}

/-- Between two messages a transfer has not begun, or its image is ready. -/
def Resting (d : Device C FaultyPartition) : Prop := d.transfer.phase = .idle ∨ d.transfer.phase = .ready

namespace Resting

theorem keptOutward : Device.KeptOutward (Resting : Device C FaultyPartition → Prop) := fun _ _ _ _ hd => hd

theorem keeps_abandon (ε : Type) : Keeps Resting (Transfer.abandon : Task C FaultyPartition ε Unit) := fun d _ => by
  obtain ⟨d', hrun⟩ := Transfer.abandon_eq_ok d
  rw [Task.after_of_ok hrun]
  exact .inl (Transfer.idle_of_abandon hrun)

theorem keeps_activate : Keeps (Resting : Device C FaultyPartition → Prop) Device.activate := fun d hd => by
  rw [Device.after_activate]
  exact hd

variable [RangeSource C]

theorem keeps_download (u : UpdateSettings) (offer : Offer) :
    Keeps (Resting : Device C FaultyPartition → Prop) (Update.download u offer) := fun d hd => by
  rcases hrun : Update.download u offer d with ⟨total, m⟩ | ⟨e, m⟩
  · rw [Task.after_of_ok hrun]
    obtain ⟨hverified, -⟩ := Update.provenance_of_download hrun
    exact .inr hverified.ready
  · rw [Task.after_of_error hrun]
    obtain ⟨-, rfl⟩ | ⟨m', -, -, habandon⟩ := Update.download_eq_error hrun
    · exact hd
    · exact .inl (Transfer.idle_of_abandon habandon)

theorem keeping : Service.Keeping (Resting : Device C FaultyPartition → Prop) :=
  .of_parts keptOutward (fun _ _ hd => hd) (fun _ _ _ hd => hd) keeps_download (keeps_abandon _) keeps_activate

end Resting
end Resting

/-! ## Operations without faults to come -/

theorem ImageState.isTerminal_of_mayBecome {s : ImageState} (h : s.mayBecome .aborted = false) :
    s.isTerminal = true := by
  cases s <;> first | rfl | cases h

theorem ImageState.mayBecome_rejected {s : ImageState} (h : s.mayBecome .rejected = true) :
    s.isTerminal = false := by
  cases s <;> first | rfl | cases h

theorem Partition.setState_rejected_eq_ok {p q : Partition} (h : p.setState .rejected = (.ok (), q)) :
    p.state.mayBecome .rejected = true ∧
      q = { (if p.file.isSome then p.discard else { p with rollbackRequested := true }) with state := .rejected } := by
  unfold setState at h
  split at h
  · rename_i hmay
    exact ⟨hmay, (Prod.mk.inj h).2.symm⟩
  · cases h

namespace FaultyPartition

variable {f : FaultyPartition}

theorem sound_onFlash (call : Call) (h : f = .sound f.partition) :
    call.onFlash f = .sound (call.onFlash f).partition := by
  rw [h]
  cases call <;> rfl

/-- **No call accepts an image, but the mark `accepted`.** -/
theorem unaccepted_onFlash (call : Call) (hmark : ∀ answer, call ≠ .setState .accepted answer)
    (h : f.partition.state ≠ .accepted) : (call.onFlash f).partition.state ≠ .accepted := by
  have orElse_unaccepted {fault : Option FlashError} {answer : Except FlashError Unit × Partition}
      (hanswer : answer.2.state ≠ .accepted) : (orElse fault f.partition answer).2.state ≠ .accepted :=
    orElse_keeps (fun p => p.state ≠ .accepted) h hanswer
  cases call with
  | create file _ =>
    obtain ⟨_, _, _, _, hframe, hstate⟩ := f.partition.create_frame file
    refine orElse_unaccepted ?_
    rw [hframe]
    rcases hstate with rfl | rfl
    · exact h
    · exact fun heq => by cases heq
  | write offset block _ =>
    refine write_keeps (fun p => p.state ≠ .accepted) block h fun block => ?_
    obtain ⟨_, _, hframe⟩ := f.partition.write_frame offset block
    rw [hframe]
    exact h
  | close file _ =>
    obtain ⟨_, hframe⟩ := f.partition.close_frame file
    exact orElse_unaccepted (by rw [hframe]; exact h)
  | abort _ => exact orElse_unaccepted h
  | activate _ =>
    obtain ⟨_, hframe⟩ := f.partition.activate_frame
    exact orElse_unaccepted (by rw [hframe]; exact h)
  | setState state answer =>
    refine orElse_unaccepted ?_
    unfold Partition.setState
    split
    · exact fun hstate => hmark answer (by rw [show state = .accepted from hstate])
    · exact h
  | connect | disconnect | fetch | wait | acknowledge | drive | tell => exact h

theorem state_of_create_eq_error {g : FaultyPartition} {file : ReceiveFile} {e : FlashError}
    (h : f.create file = (.error e, g)) : g.partition.state = f.partition.state := by
  rcases hfault : f.creates.head?.join with _ | fault
  · simp only [create, orElse, hfault, Prod.mk.injEq] at h
    obtain ⟨hanswer, rfl⟩ := h
    have hrefused : f.partition.create file = (.error e, (f.partition.create file).2) := Prod.ext hanswer rfl
    change (f.partition.create file).2.state = _
    rw [Partition.create_eq_error hrefused]
    split <;> rfl
  · simp only [create, orElse, hfault, Prod.mk.injEq] at h
    rw [← h.2]

theorem state_abort (f : FaultyPartition) : f.abort.2.partition.state = f.partition.state :=
  orElse_keeps (fun p => p.state = f.partition.state) rfl rfl

theorem setState_of_mayBecome {g : FaultyPartition} {next : ImageState} {answer : Except FlashError Unit}
    (hsound : f = .sound f.partition) (hmay : f.partition.state.mayBecome next = true)
    (h : f.setState next = (answer, g)) : g.partition = (f.partition.setState next).2 ∧ g.partition.state = next := by
  have hg : g.partition = (f.partition.setState next).2 := by
    rw [hsound] at h
    exact congrArg (·.2.partition) h.symm
  refine ⟨hg, ?_⟩
  rw [hg]
  unfold Partition.setState
  rw [if_pos hmay]

theorem sound_replay (calls : List Call) (h : f = .sound f.partition) :
    FlashDevice.replay f calls = .sound (FlashDevice.replay f calls).partition := by
  induction calls generalizing f with
  | nil => exact h
  | cons call calls ih => exact ih (sound_onFlash call h)

theorem unaccepted_replay (calls : List Call) (hmark : ∀ answer, Call.setState .accepted answer ∉ calls)
    (h : f.partition.state ≠ .accepted) : (FlashDevice.replay f calls).partition.state ≠ .accepted := by
  induction calls generalizing f with
  | nil => exact h
  | cons call calls ih =>
    have hcall (answer : Except FlashError Unit) : call ≠ .setState .accepted answer := fun heq =>
      hmark answer (heq ▸ List.mem_cons_self)
    exact ih (fun answer hmem => hmark answer (List.mem_cons_of_mem _ hmem)) (unaccepted_onFlash call hcall h)

end FaultyPartition

/-! ## Whose state it is -/

variable {C : Type}

/-- Whose image state the partition keeps, after calls that were answered so when they opened a file. -/
inductive Bearing (d₀ d : Device C FaultyPartition) (openings : List (Except FlashError Unit)) : Prop
  /-- No call asked for a file: the partition is as it booted. -/
  | running (unasked : openings = []) (transfer : d.transfer = {}) (partition : d.flash.partition = d₀.flash.partition)
  /-- Every file that was asked for was refused.  An image on trial is aborted for it; any other keeps its fate. -/
  | refused (asked : openings ≠ []) (unopened : .ok () ∉ openings)
      (accepted : d.flash.partition.state = .accepted ↔ d₀.flash.partition.state = .accepted)
      (ended : d.transfer.phase = .idle ∨ d.transfer.phase = .failed)
      (idle : d.transfer.phase = .idle → d.flash.partition.state.isTerminal = true)
  /-- A file was opened: the state is that of the image received last. -/
  | received (opened : .ok () ∈ openings) (unaccepted : d.flash.partition.state ≠ .accepted)
      (ready : d.transfer.phase = .ready → d.flash.partition.state = .testing ∧ d.flash.partition.file.isSome = true)
      (idle : d.transfer.phase = .idle → d.flash.partition.state.isTerminal = true)

/-- A device that no boot decision was made on, and whose flash device refuses nothing. -/
structure Undecided (d₀ d : Device C FaultyPartition) : Prop where
  sparing : Sparing d₀ d
  sound : d.flash = .sound d.flash.partition
  bearing : ∃ calls, d.calls = d₀.calls ++ calls ∧ Bearing d₀ d (calls.filterMap Call.opening?)

namespace Bearing

variable {d₀ d d' : Device C FaultyPartition} {openings : List (Except FlashError Unit)}

theorem same (h : Bearing d₀ d openings) (htransfer : d'.transfer = d.transfer)
    (hstate : d'.flash.partition.state = d.flash.partition.state)
    (hfile : d'.flash.partition.file = d.flash.partition.file)
    (hbooted : d.flash.partition = d₀.flash.partition → d'.flash.partition = d₀.flash.partition) :
    Bearing d₀ d' openings := by
  cases h with
  | running unasked transfer partition => exact .running unasked (htransfer.trans transfer) (hbooted partition)
  | refused asked unopened accepted ended idle =>
    rw [← hstate] at accepted idle
    rw [← htransfer] at ended idle
    exact .refused asked unopened accepted ended idle
  | received opened unaccepted ready idle =>
    rw [← hstate] at unaccepted ready idle
    rw [← hfile] at ready
    rw [← htransfer] at ready idle
    exact .received opened unaccepted ready idle

theorem receiving (h : Bearing d₀ d openings) {expected written : UInt32}
    (hphase : d.transfer.phase = .receiving expected written)
    (hunaccepted : d.flash.partition.state ≠ .accepted → d'.flash.partition.state ≠ .accepted)
    (hready : d'.transfer.phase = .ready →
      d'.flash.partition.state = .testing ∧ d'.flash.partition.file.isSome = true)
    (hbusy : d'.transfer.phase ≠ .idle) : Bearing d₀ d' openings := by
  cases h with
  | running unasked transfer partition =>
    rw [transfer] at hphase
    cases hphase
  | refused asked unopened accepted ended idle => simp [hphase] at ended
  | received opened unaccepted ready idle => exact .received opened (hunaccepted unaccepted) hready (absurd · hbusy)

theorem abandoned (h : Bearing d₀ d openings) (hbusy : d.transfer.phase ≠ .idle) (htransfer : d'.transfer = {})
    (haccepted : d'.flash.partition.state = .accepted ↔ d.flash.partition.state = .accepted)
    (hterminal : d'.flash.partition.state.isTerminal = true) : Bearing d₀ d' openings := by
  have hidle : d'.transfer.phase = .idle := by rw [htransfer]
  cases h with
  | running unasked transfer partition =>
    rw [transfer] at hbusy
    exact absurd rfl hbusy
  | refused asked unopened accepted ended idle =>
    exact .refused asked unopened (haccepted.trans accepted) (.inl hidle) fun _ => hterminal
  | received opened unaccepted ready idle =>
    refine .received opened (fun h => unaccepted (haccepted.1 h)) (fun hready => ?_) fun _ => hterminal
    rw [hidle] at hready
    cases hready

theorem unopened (h : Bearing d₀ d openings) {e : FlashError} (hphase : d'.transfer.phase = .failed)
    (hstate : d'.flash.partition.state = d.flash.partition.state) : Bearing d₀ d' (openings ++ [.error e]) := by
  have hbusy : d'.transfer.phase ≠ .idle := by rw [hphase]; exact Phase.noConfusion
  have hunready : d'.transfer.phase ≠ .ready := by rw [hphase]; exact Phase.noConfusion
  cases h with
  | running unasked transfer partition =>
    refine .refused (by simp) (by simp [unasked]) ?_ (.inr hphase) (absurd · hbusy)
    rw [hstate, partition]
  | refused asked unopened accepted ended idle =>
    exact .refused (by simp) (by simp [unopened]) (by rw [hstate, accepted]) (.inr hphase) (absurd · hbusy)
  | received opened unaccepted ready idle =>
    exact .received (List.mem_append_left _ opened) (by rwa [hstate]) (absurd · hunready) (absurd · hbusy)

end Bearing

namespace Undecided

variable {d₀ d d' : Device C FaultyPartition}

theorem onward {calls : List Call} (h : Undecided d₀ d) (hsparing : Sparing d₀ d')
    (hcalls : d'.calls = d.calls ++ calls) (hunopened : calls.filterMap Call.opening? = [])
    (hsound : d'.flash = .sound d'.flash.partition)
    (hbearing : ∀ openings, Bearing d₀ d openings → Bearing d₀ d' openings) : Undecided d₀ d' := by
  obtain ⟨before, hbefore, hd⟩ := h.bearing
  refine ⟨hsparing, hsound, before ++ calls, ?_, ?_⟩
  · rw [hcalls, hbefore, List.append_assoc]
  · rw [List.filterMap_append, hunopened, List.append_nil]
    exact hbearing _ hd

theorem note {call : Call} (h : Undecided d₀ d) (hsparing : Sparing d₀ d') (hcalls : d'.calls = d.calls ++ [call])
    (hunopened : call.opening? = none) (htransfer : d'.transfer = d.transfer) (hflash : d'.flash = d.flash) :
    Undecided d₀ d' := by
  refine h.onward hsparing hcalls (List.filterMap_cons_none hunopened) ?_ fun openings hbearing => ?_
  · rw [hflash]
    exact h.sound
  · exact hbearing.same htransfer (by rw [hflash]) (by rw [hflash]) fun hbooted => by rw [hflash, hbooted]

theorem keptOutward : Device.KeptOutward (Undecided d₀ : Device C FaultyPartition → Prop) :=
  fun d source call hcall hd => hd.note (Sparing.keptOutward d source call hcall hd.sparing) (Device.calls_note _ _)
    (Call.opening?_of_isOutward hcall) rfl rfl

theorem opening (h : Undecided d₀ d) {file : ReceiveFile} {answer : Except FlashError Unit}
    (hsparing : Sparing d₀ d') (hcalls : d'.calls = d.calls ++ [Call.create file answer])
    (hsound : d'.flash = .sound d'.flash.partition)
    (hbearing : ∀ openings, Bearing d₀ d openings → Bearing d₀ d' (openings ++ [answer])) : Undecided d₀ d' := by
  obtain ⟨calls, hbefore, hd⟩ := h.bearing
  refine ⟨hsparing, hsound, calls ++ [.create file answer], by rw [hcalls, hbefore, List.append_assoc], ?_⟩
  rw [List.filterMap_append]
  exact hbearing _ hd

/-- **A step of a transfer leaves the state to the running image, or gives it to the received one.** -/
theorem step (h : Undecided d₀ d) (hstep : Transfer.Step d d') : Undecided d₀ d' := by
  have hsparing := h.sparing.step hstep
  obtain ⟨hsound, hunaccepted⟩ : d'.flash = .sound d'.flash.partition ∧
      (d.flash.partition.state ≠ .accepted → d'.flash.partition.state ≠ .accepted) := by
    obtain ⟨calls, -, hflash, hmark⟩ := hstep.replays
    rw [hflash]
    exact ⟨FaultyPartition.sound_replay calls h.sound, FaultyPartition.unaccepted_replay calls hmark⟩
  cases hstep with
  | opened answered =>
    obtain ⟨-, hstate, -⟩ := Partition.create_eq_ok (FaultyPartition.create_eq_ok answered)
    refine h.opening hsparing (Device.calls_note _ _) hsound fun openings _ =>
      .received (by simp) (fun haccepted => ?_) Phase.noConfusion Phase.noConfusion
    cases hstate.symm.trans haccepted
  | unopened answered =>
    exact h.opening hsparing (Device.calls_note _ _) hsound fun openings hbearing =>
      hbearing.unopened rfl (FaultyPartition.state_of_create_eq_error answered)
  | written receiving _ outcome =>
    refine h.onward hsparing (Device.calls_note _ _) rfl hsound fun _ hbearing =>
      hbearing.receiving receiving hunaccepted (fun hready => ?_) fun hidle => ?_
    · rcases outcome with ⟨_, rfl⟩ | rfl <;> cases hready
    · rcases outcome with ⟨_, rfl⟩ | rfl <;> cases hidle
  | finished full answered marked =>
    obtain ⟨-, hopen⟩ := h.sparing.close full answered
    have htesting := Partition.setState_testing_eq_ok (FaultyPartition.setState_eq_ok marked)
    refine h.onward hsparing (Device.calls_note_note _ _ _) rfl hsound fun _ hbearing =>
      hbearing.receiving (congrArg Transfer.phase full) hunaccepted (fun _ => ?_) Phase.noConfusion
    simp only [Device.note, htesting]
    exact ⟨trivial, hopen⟩
  | unmarked full | rejected full =>
    exact h.onward hsparing (Device.calls_note_note _ _ _) rfl hsound fun _ hbearing =>
      hbearing.receiving (congrArg Transfer.phase full) hunaccepted Phase.noConfusion Phase.noConfusion
  | @dropped flash _ hbusy answered terminal =>
    have hstate : flash.partition.state = d.flash.partition.state := by
      rw [show flash = d.flash.abort.2 from (congrArg Prod.snd answered).symm]
      exact d.flash.state_abort
    exact h.onward hsparing (Device.calls_note _ _) rfl hsound fun _ hbearing =>
      hbearing.abandoned hbusy rfl ⟨hstate.symm.trans, hstate.trans⟩ (ImageState.isTerminal_of_mayBecome terminal)
  | @discarded aborted flash answer answer' hbusy answered mayBecome marked =>
    have habort : aborted = (Call.abort answer).onFlash d.flash := (congrArg Prod.snd answered).symm
    have haborted : aborted = .sound aborted.partition := by
      rw [habort]
      exact FaultyPartition.sound_onFlash _ h.sound
    have hbefore : aborted.partition.state = d.flash.partition.state := by
      rw [habort]
      exact d.flash.state_abort
    obtain ⟨-, hstate⟩ := FaultyPartition.setState_of_mayBecome haborted mayBecome marked
    -- an accepted image does not come here, and the image that does is not accepted by it
    have hneither : ¬ flash.partition.state = .accepted ∧ ¬ d.flash.partition.state = .accepted := by
      refine ⟨fun heq => ?_, fun heq => ?_⟩
      · rw [hstate] at heq
        cases heq
      · rw [show FlashDevice.state aborted = .accepted from hbefore.trans heq] at mayBecome
        cases mayBecome
    refine h.onward hsparing (Device.calls_note_note _ _ _) rfl hsound fun _ hbearing =>
      hbearing.abandoned hbusy rfl (iff_of_false hneither.1 hneither.2) ?_
    change flash.partition.state.isTerminal = true
    rw [hstate]
    rfl

theorem keeping : Update.Keeping (Undecided d₀ : Device C FaultyPartition → Prop) :=
  .of_step keptOutward fun _ _ h hstep => h.step hstep

theorem keeps_activate (hfresh : d₀.Fresh) :
    Keeps (Undecided d₀ : Device C FaultyPartition → Prop) Device.activate := fun d hd => by
  have hsparing := Sparing.keeps_activate d hd.sparing
  rw [Device.after_activate] at hsparing ⊢
  refine hd.onward hsparing (Device.calls_note _ _) rfl ?_ fun openings hbearing => ?_
  · exact FaultyPartition.sound_onFlash (.activate (FlashDevice.activate d.flash).1) hd.sound
  · have hactivated : (FlashDevice.activate d.flash).2.partition = d.flash.partition.activate.2 := by
      rw [hd.sound]
      rfl
    obtain ⟨_, hframe⟩ := d.flash.partition.activate_frame
    refine hbearing.same rfl ?_ ?_ fun hbooted => ?_
    · simp only [Device.note, hactivated, hframe]
    · simp only [Device.note, hactivated, hframe]
    · -- the partition as it booted has no file to activate
      obtain ⟨capacity, state, hbare⟩ := hfresh.partition
      change (FlashDevice.activate d.flash).2.partition = _
      rw [hactivated, hbooted, hbare]
      rfl

theorem keeping_handle [RangeSource C] (hfresh : d₀.Fresh) :
    Service.Keeping (Undecided d₀ : Device C FaultyPartition → Prop) :=
  .of_parts keptOutward
    (fun _ _ hd => hd.note (hd.sparing.snoc rfl rfl (fun _ => Call.noConfusion) hd.sparing.backed)
      (Device.calls_note _ _) rfl rfl rfl)
    (fun _ _ _ hd => hd.note (hd.sparing.snoc rfl rfl (fun _ => Call.noConfusion) hd.sparing.backed)
      (Device.calls_note _ _) rfl rfl rfl)
    (Update.keeps_download keeping) (keeping.abandon _) (keeps_activate hfresh)

end Undecided

/-! ## The decision -/

section Decision

variable {d : Device C FaultyPartition} (hsound : d.flash = .sound d.flash.partition)
include hsound

theorem Update.confirmBoot_of_testing (h : d.flash.partition.state = .testing) :
    ∃ m, confirmBoot d = .ok .accepted m ∧ m.flash.partition.state = .accepted := by
  have hmay : d.flash.partition.state.mayBecome .accepted = true := by
    rw [h]
    rfl
  obtain ⟨q, hq⟩ : ∃ q, d.flash.partition.setState .accepted = (.ok (), q) := ⟨_, if_pos hmay⟩
  have haccept : FlashDevice.setState d.flash .accepted = (.ok (), .sound q) := by
    rw [hsound]
    exact FaultyPartition.setState_sound hq
  obtain ⟨hpartition, hstate⟩ := FaultyPartition.setState_of_mayBecome hsound hmay haccept
  have hrun : Device.setState .accepted d =
      .ok () ({ d with flash := FaultyPartition.sound q }.note (.setState .accepted (.ok ()))) := by
    unfold Device.setState
    rw [haccept]
    rfl
  unfold confirmBoot
  rw [Device.bind_imageState]
  simp only [FlashDevice.state, h, ne_eq, not_true_eq_false, if_false]
  exact ⟨_, Task.bind_of_ok (Task.raising_eq_ok.2 hrun), hstate⟩

/-- **Confirming a boot leaves the image accepted exactly when it was on trial or accepted.** -/
theorem Service.accepted_of_start_iff (s : Service) :
    ((s.start : Task C FaultyPartition DeviceError Unit).after d).flash.partition.state = .accepted ↔
      d.flash.partition.state = .testing ∨ d.flash.partition.state = .accepted := by
  unfold start
  by_cases htesting : d.flash.partition.state = .testing
  · obtain ⟨m, hrun, hstate⟩ := Update.confirmBoot_of_testing hsound htesting
    rw [Task.after_bind_of_ok (Task.raising_eq_ok.2 hrun)]
    exact ⟨fun _ => .inl htesting, fun _ => hstate⟩
  · have hrun : Update.confirmBoot d = .ok d.flash.partition.state d := by
      unfold Update.confirmBoot
      rw [Device.bind_imageState]
      simp only [FlashDevice.state, ne_eq, htesting, not_false_eq_true, if_true]
      rfl
    rw [Task.after_bind_of_ok (Task.raising_eq_ok.2 hrun)]
    exact ⟨.inr, fun h => h.resolve_left htesting⟩

/-- **A rejection that is answered well** discards the received image if its file is open, and asks for a rollback
otherwise. -/
theorem Update.rejectRunning_eq_ok {m : Device C FaultyPartition} (h : rejectRunning d = .ok () m) :
    d.flash.partition.state.mayBecome .rejected = true ∧ m.flash.partition =
      { (if d.flash.partition.file.isSome then d.flash.partition.discard
          else { d.flash.partition with rollbackRequested := true }) with state := .rejected } := by
  obtain ⟨hanswer, rfl⟩ := Task.conclude_eq_ok.1 (Task.raising_eq_ok.1 h)
  rw [hsound] at hanswer
  obtain ⟨hmay, hq⟩ := Partition.setState_rejected_eq_ok (p := d.flash.partition) (Prod.ext hanswer rfl)
  refine ⟨hmay, ?_⟩
  rw [← hq]
  change (FlashDevice.setState d.flash .rejected).2.partition = _
  rw [hsound]
  rfl

end Decision

namespace Service

variable [RangeSource C]

theorem Reaches.undecided {s : Service} {d₀ d : Device C FaultyPartition} (h : s.Reaches d₀ d) (hfresh : d₀.Fresh)
    (hsound : d₀.flash = .sound d₀.flash.partition) : Undecided d₀ d ∧ Resting d := by
  induction h with
  | start =>
    refine ⟨⟨hfresh.sparing, hsound, [], by simp, .running rfl hfresh.transfer rfl⟩, .inl ?_⟩
    rw [hfresh.transfer]
  | handle payload _ ih =>
    exact ⟨keeps_handle (Undecided.keeping_handle hfresh) s payload _ ih.1,
      keeps_handle Resting.keeping s payload _ ih.2⟩

/-- **Messages that open no file leave the boot decision as it was; after a file was opened the decision is about the
image received into it.**  That image is accepted exactly when it is complete and kept, and rejecting it discards it.
Of an image on trial nothing is said if a file was asked for and every one was refused, but that rejecting it, if it is
answered well, asks for a rollback. -/
theorem boot_decision {s : Service} {d₀ d : Device C FaultyPartition} (hfresh : d₀.Fresh)
    (hsound : d₀.flash = .sound d₀.flash.partition) (h : s.Reaches d₀ d) :
    ∃ calls, d.calls = d₀.calls ++ calls ∧
      (.ok () ∉ calls.filterMap Call.opening? →
        (calls.filterMap Call.opening? = [] ∨ d₀.flash.partition.state ≠ .testing →
          (((s.start : Task C FaultyPartition DeviceError Unit).after d).flash.partition.state = .accepted ↔
            d₀.flash.partition.state = .testing ∨ d₀.flash.partition.state = .accepted)) ∧
        ∀ m, Update.rejectRunning d = .ok () m → m.flash.partition.rollbackRequested = true) ∧
      (.ok () ∈ calls.filterMap Call.opening? →
        (((s.start : Task C FaultyPartition DeviceError Unit).after d).flash.partition.state = .accepted ↔
          d.transfer.phase = .ready) ∧
        ∀ m, Update.rejectRunning d = .ok () m →
          m.flash.partition.rollbackRequested = false ∧ m.flash.partition.image = []) := by
  obtain ⟨hundecided, hresting⟩ := h.undecided hfresh hsound
  obtain ⟨calls, hcalls, hbearing⟩ := hundecided.bearing
  have hstart := accepted_of_start_iff hundecided.sound s
  refine ⟨calls, hcalls, fun hunopened => ?_, fun hopened => ?_⟩
  · cases hbearing with
    | running unasked transfer partition =>
      refine ⟨fun _ => by rwa [← partition], fun m hreject => ?_⟩
      obtain ⟨capacity, state, hbooted⟩ := hfresh.partition
      obtain ⟨-, hm⟩ := Update.rejectRunning_eq_ok hundecided.sound hreject
      rw [hm, partition, hbooted]
      rfl
    | refused asked unopened accepted ended idle =>
      have hidle : d.transfer.phase = .idle := hresting.resolve_right fun hready => by simp [hready] at ended
      have hterminal := idle hidle
      refine ⟨fun hguard => ?_, fun m hreject => ?_⟩
      · have huntried := hguard.resolve_left asked
        have hdecided : d.flash.partition.state ≠ .testing := fun htesting => by
          rw [htesting] at hterminal
          cases hterminal
        rw [hstart, or_iff_right hdecided, or_iff_right huntried, accepted]
      · obtain ⟨hmay, -⟩ := Update.rejectRunning_eq_ok hundecided.sound hreject
        rw [ImageState.mayBecome_rejected hmay] at hterminal
        cases hterminal
    | received opened => exact absurd opened hunopened
  · cases hbearing with
    | running unasked =>
      rw [unasked] at hopened
      cases hopened
    | refused asked unopened => exact absurd hopened unopened
    | received opened unaccepted ready idle =>
      refine ⟨?_, fun m hreject => ?_⟩
      · rw [hstart, or_iff_left unaccepted]
        refine ⟨fun htesting => hresting.resolve_left fun hidle => ?_, fun hready => (ready hready).1⟩
        have hterminal := idle hidle
        rw [htesting] at hterminal
        cases hterminal
      · obtain ⟨hmay, hm⟩ := Update.rejectRunning_eq_ok hundecided.sound hreject
        have hready : d.transfer.phase = .ready := hresting.resolve_left fun hidle => by
          have hterminal := idle hidle
          rw [ImageState.mayBecome_rejected hmay] at hterminal
          cases hterminal
        rw [hm, if_pos (ready hready).2]
        exact ⟨hundecided.sparing.spared, rfl⟩

/-- A device that runs an accepted image, with room for two octets where the server has three. -/
def crowded : Device RehearsedSource FaultyPartition :=
  { onTrial with flash := .sound { state := .accepted, capacity := 2 } }

theorem onTrial_boot_decision :
    (∃ d : Device RehearsedSource FaultyPartition, ({} : Service).Reaches onTrial d ∧ d.transfer.phase = .ready ∧
      (({} : Service).start.after d).flash.partition.state = .accepted ∧
      ∀ m, Update.rejectRunning d = .ok () m → m.flash.partition.rollbackRequested = false) ∧
    ∃ d : Device RehearsedSource FaultyPartition, ({} : Service).Reaches crowded d ∧
      d.calls.filterMap Call.opening? = [.error .fileTooLarge] ∧
      (({} : Service).start.after d).flash.partition.state = .accepted := by
  refine ⟨⟨_, .handle offerPayload .start, ?_⟩, _, .handle offerPayload .start, ?_⟩
  · have hfresh : onTrial.Fresh := ⟨rfl, _, _, rfl⟩
    have hsound : onTrial.flash = .sound onTrial.flash.partition := rfl
    have hreach : ({} : Service).Reaches onTrial (({} : Service).handle offerPayload |>.after onTrial) :=
      .handle _ .start
    have hopened : (({} : Service).handle offerPayload |>.after onTrial).calls.filterMap Call.opening? = [.ok ()] := by
      decide +kernel
    have hready : (({} : Service).handle offerPayload |>.after onTrial).transfer.phase = .ready := by decide +kernel
    obtain ⟨calls, hcalls, -, hreceived⟩ := boot_decision hfresh hsound hreach
    rw [hcalls, show onTrial.calls = [] from rfl, List.nil_append] at hopened
    obtain ⟨haccepted, hrejected⟩ := hreceived (by rw [hopened]; exact List.mem_singleton_self _)
    exact ⟨hready, haccepted.2 hready, fun m hm => (hrejected m hm).1⟩
  · have hfresh : crowded.Fresh := ⟨rfl, _, _, rfl⟩
    have hsound : crowded.flash = .sound crowded.flash.partition := rfl
    have hreach : ({} : Service).Reaches crowded (({} : Service).handle offerPayload |>.after crowded) :=
      .handle _ .start
    have hrefused : (({} : Service).handle offerPayload |>.after crowded).calls.filterMap Call.opening? =
        [.error .fileTooLarge] := by decide +kernel
    refine ⟨hrefused, ?_⟩
    obtain ⟨calls, hcalls, hkept, -⟩ := boot_decision hfresh hsound hreach
    rw [hcalls, show crowded.calls = [] from rfl, List.nil_append] at hrefused
    exact ((hkept (by simp [hrefused])).1 (.inr (by decide))).2 (.inr rfl)

/-- The device before a server that declares a size and then sends a body of another one. -/
def cutShortOnTrial : Device RehearsedSource FaultyPartition :=
  { onTrial with source := { image := ⟨#[7, 8, 9]⟩, fetches := [.serve, .answer 206 none [7] 1] } }

/-- A download that fails takes an image on trial along: it is not accepted any more. -/
theorem failed_download_ends_trial :
    ¬ ∀ (s : Service) (d₀ d : Device RehearsedSource FaultyPartition), d₀.Fresh →
      d₀.flash = .sound d₀.flash.partition → s.Reaches d₀ d →
      ((s.start.after d).flash.partition.state = .accepted ↔
        d₀.flash.partition.state = .testing ∨ d₀.flash.partition.state = .accepted) := by
  intro hconfirmed
  have hreach : ({} : Service).Reaches cutShortOnTrial (({} : Service).handle offerPayload |>.after cutShortOnTrial) :=
    .handle _ .start
  have haccepted := (hconfirmed {} cutShortOnTrial _ ⟨rfl, _, _, rfl⟩ rfl hreach).2 (.inl rfl)
  have haborted : (({} : Service).start.after
      (({} : Service).handle offerPayload |>.after cutShortOnTrial)).flash.partition.state = .aborted := by
    decide +kernel
  rw [haccepted] at haborted
  cases haborted

end Service
end Firmware
