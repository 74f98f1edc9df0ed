import Firmware.Proofs.Recovery
import Firmware.Proofs.Replay
/-!
# Running — update traffic leaves the running image alone

Marking an image rejected means two things: it discards the received image while a receive file is open, and asks for a
rollback of the running image otherwise.  Only a transfer whose file fails to close makes that mark, and a transfer
under way has its file open.  So no traffic, whatever fails, ever asks for a rollback (`never_rolls_back`).
-/
open Firmware.Task (Keeps keeps_bind keeps_pure keeps_raising)

namespace Firmware

/-! ## What the operations of a partition keep -/

namespace Partition

variable {p : Partition}

theorem setState_spares (state : ImageState) (hmark : state = .rejected → p.file.isSome = true)
    (h : p.rollbackRequested = false) : (p.setState state).2.rollbackRequested = false := by
  unfold setState
  split
  · cases state with
    | rejected =>
      simp only [hmark rfl, if_true]
      exact h
    | unknown | testing | accepted | aborted => exact h
  · exact h

theorem write_backed (offset : UInt32) (block : Bytes) (h : p.file.isSome = true) :
    (p.write offset block).2.file.isSome = true := by
  unfold write
  split
  · exact h
  split
  · exact h
  split
  · exact h
  · rfl

theorem close_backed (file : ReceiveFile) (h : p.file.isSome = true) : (p.close file).2.file.isSome = true := by
  unfold close
  split
  · exact h
  split
  · exact h
  split
  · rfl
  split <;> rfl

end Partition

namespace FaultyPartition

variable {f g : FaultyPartition}

theorem orElse_keeps (Q : Partition → Prop) {fault : Option FlashError} {p : Partition}
    {answer : Except FlashError Unit × Partition} (hp : Q p) (hanswer : Q answer.2) : Q (orElse fault p answer).2 := by
  unfold orElse
  split
  · exact hp
  · exact hanswer

theorem write_keeps (Q : Partition → Prop) {offset : UInt32} (block : Bytes) (hf : Q f.partition)
    (hwrite : ∀ block, Q (f.partition.write offset block).2) : Q (f.write offset block).2.partition := by
  unfold write
  rcases f.writes.head?.join with _ | e | limit
  · exact hwrite _
  · exact hf
  · exact hwrite _

/-- **No call asks for a rollback, but a mark `rejected` without an open file.** -/
theorem spares_onFlash (call : Call)
    (hmark : ∀ answer, call = .setState .rejected answer → f.partition.file.isSome = true)
    (h : f.partition.rollbackRequested = false) : (call.onFlash f).partition.rollbackRequested = false := by
  have orElse_spares {fault : Option FlashError} {answer : Except FlashError Unit × Partition}
      (hanswer : answer.2.rollbackRequested = false) :
      (orElse fault f.partition answer).2.rollbackRequested = false :=
    orElse_keeps (fun p => p.rollbackRequested = false) h hanswer
  cases call with
  | create file _ =>
    obtain ⟨_, _, _, _, hframe, -⟩ := f.partition.create_frame file
    exact orElse_spares (by rw [hframe]; exact h)
  | write offset block _ =>
    refine write_keeps (fun p => p.rollbackRequested = false) block h fun block => ?_
    obtain ⟨_, _, hframe⟩ := f.partition.write_frame offset block
    rw [hframe]
    exact h
  | close file _ =>
    obtain ⟨_, hframe⟩ := f.partition.close_frame file
    exact orElse_spares (by rw [hframe]; exact h)
  | abort _ => exact orElse_spares h
  | activate _ =>
    obtain ⟨_, hframe⟩ := f.partition.activate_frame
    exact orElse_spares (by rw [hframe]; exact h)
  | setState state answer =>
    exact orElse_spares (Partition.setState_spares state (fun hstate => hmark answer (by rw [hstate])) h)
  | connect | disconnect | fetch | wait | acknowledge | drive | tell => exact h

/-- **A mark `rejected` that finds an open file discards the received image**, or it is refused. -/
theorem setState_rejected {answer : Except FlashError Unit} (hfile : f.partition.file.isSome = true)
    (h : f.setState .rejected = (answer, g)) :
    (answer = .ok () ∧ g.partition = { f.partition.discard with state := .rejected }) ∨
      ((∃ e, answer = .error e) ∧ g.partition = f.partition) := by
  have hrun : orElse f.states.head?.join f.partition (f.partition.setState .rejected) = (answer, g.partition) := by
    unfold setState at h
    simp only [Prod.mk.injEq] at h
    obtain ⟨hanswer, rfl⟩ := h
    exact Prod.ext hanswer rfl
  unfold orElse Partition.setState at hrun
  simp only [hfile, if_true] at hrun
  split at hrun
  · obtain ⟨rfl, hpartition⟩ := Prod.mk.inj hrun
    exact .inr ⟨⟨_, rfl⟩, hpartition.symm⟩
  split at hrun
  · obtain ⟨rfl, hpartition⟩ := Prod.mk.inj hrun
    exact .inl ⟨rfl, hpartition.symm⟩
  · obtain ⟨rfl, hpartition⟩ := Prod.mk.inj hrun
    exact .inr ⟨⟨_, rfl⟩, hpartition.symm⟩

end FaultyPartition

/-! ## Through a run -/

/-- A call that is made after the calls `before` on a flash device that was `f₀`: no rollback has been requested, and a
mark `rejected` comes right after a close that failed, finds the file open and discards no more than that image. -/
structure Call.Spares (f₀ : FaultyPartition) (before : List Call) (call : Call) : Prop where
  spared : (FlashDevice.replay f₀ before).partition.rollbackRequested = false
  rejection : ∀ answer, call = .setState .rejected answer →
    (∃ earlier file e, before = earlier ++ [.close file (.error e)]) ∧
      (FlashDevice.replay f₀ before).partition.file.isSome = true ∧
      ((answer = .ok () ∧ (FlashDevice.replay f₀ (before ++ [call])).partition =
          { (FlashDevice.replay f₀ before).partition.discard with state := .rejected }) ∨
        ((∃ e, answer = .error e) ∧
          (FlashDevice.replay f₀ (before ++ [call])).partition = (FlashDevice.replay f₀ before).partition))

variable {C : Type}

/-- A transfer under way has its file open, and no rollback was ever requested. -/
structure Sparing (d₀ d : Device C FaultyPartition) : Prop where
  calls : ∃ calls, Device.Leads (Call.Spares d₀.flash) d₀ calls d
  backed : d.transfer.isActive = true → d.flash.partition.file.isSome = true
  spared : d.flash.partition.rollbackRequested = false

namespace Sparing

variable {d₀ d d' : Device C FaultyPartition}

theorem snoc {call : Call} (h : Sparing d₀ d) (hjournal : d'.journal = call :: d.journal)
    (hflash : d'.flash = call.onFlash d.flash) (hmark : ∀ answer, call ≠ .setState .rejected answer)
    (hbacked : d'.transfer.isActive = true → d'.flash.partition.file.isSome = true) : Sparing d₀ d' := by
  obtain ⟨calls, hcalls⟩ := h.calls
  refine ⟨⟨_, hcalls.snoc hjournal hflash ⟨?_, fun answer hcall => absurd hcall (hmark answer)⟩⟩, hbacked, ?_⟩
  · rw [← hcalls.flash]
    exact h.spared
  · rw [hflash]
    exact FaultyPartition.spares_onFlash call (fun answer hcall => absurd hcall (hmark answer)) h.spared

theorem keptOutward : Device.KeptOutward (Sparing d₀ : Device C FaultyPartition → Prop) :=
  fun d source call hcall hd => hd.snoc rfl (Call.onFlash_of_isOutward d.flash hcall).symm
    (fun answer heq => by rw [heq] at hcall; cases hcall) hd.backed

theorem backed_of_receiving {expected written : UInt32} (h : Sparing d₀ d)
    (hphase : d.transfer.phase = .receiving expected written) : d.flash.partition.file.isSome = true :=
  h.backed (by simp only [Transfer.isActive, hphase])

theorem close (h : Sparing d₀ d) {size : UInt32} {file : ReceiveFile} {closed : FaultyPartition}
    {answer : Except FlashError Unit} (full : d.transfer = { phase := .receiving size size, file := some file })
    (answered : FlashDevice.close d.flash file = (answer, closed)) :
    Sparing d₀ ({ d with flash := closed }.note (.close file answer)) ∧ closed.partition.file.isSome = true := by
  have hopen := h.backed_of_receiving (congrArg Transfer.phase full)
  have hclosed : closed.partition.file.isSome = true := by
    have hkept : (FlashDevice.close d.flash file).2.partition.file.isSome = true :=
      FaultyPartition.orElse_keeps (fun p => p.file.isSome = true) hopen (Partition.close_backed file hopen)
    rwa [answered] at hkept
  exact ⟨h.snoc rfl (congrArg Prod.snd answered).symm (fun _ => Call.noConfusion) fun _ => hclosed, hclosed⟩

/-- **No step of a transfer asks for a rollback.** -/
theorem step (h : Sparing d₀ d) (hstep : Transfer.Step d d') : Sparing d₀ d' := by
  cases hstep with
  | opened answered =>
    refine h.snoc rfl (congrArg Prod.snd answered).symm (fun _ => Call.noConfusion) fun _ => ?_
    obtain ⟨hreceives, -⟩ := Partition.create_eq_ok (FaultyPartition.create_eq_ok answered)
    exact Option.isSome_of_eq_some hreceives.opened
  | unopened answered =>
    exact h.snoc rfl (congrArg Prod.snd answered).symm (fun _ => Call.noConfusion) fun hactive => by cases hactive
  | @written _ offset block _ _ _ receiving answered _ =>
    refine h.snoc rfl (congrArg Prod.snd answered).symm (fun _ => Call.noConfusion) fun _ => ?_
    have hopen := h.backed_of_receiving receiving
    have hkept : (FlashDevice.write d.flash offset block).2.partition.file.isSome = true :=
      FaultyPartition.write_keeps (fun p => p.file.isSome = true) block hopen fun block =>
        Partition.write_backed offset block hopen
    rwa [answered] at hkept
  | finished full answered marked =>
    obtain ⟨hclosed, -⟩ := h.close full answered
    exact hclosed.snoc rfl (congrArg Prod.snd marked).symm (fun _ => by simp) fun hactive => by cases hactive
  | unmarked full answered marked =>
    obtain ⟨hclosed, -⟩ := h.close full answered
    exact hclosed.snoc rfl (congrArg Prod.snd marked).symm (fun _ => by simp) fun hactive => by cases hactive
  | @rejected _ file closed flash e answer full answered marked =>
    obtain ⟨hclosed, hopen⟩ := h.close full answered
    obtain ⟨calls, hcalls⟩ := h.calls
    -- The calls up to the close, with the close as the last of them.
    have hclose : Device.Leads (Call.Spares d₀.flash) d₀ (calls ++ [.close file (.error e)])
        ({ d with flash := closed }.note (.close file (.error e))) := by
      refine hcalls.snoc rfl (congrArg Prod.snd answered).symm ⟨?_, fun _ heq => by cases heq⟩
      rw [← hcalls.flash]
      exact h.spared
    have hreplay : FlashDevice.replay d₀.flash (calls ++ [.close file (.error e)]) = closed := hclose.flash.symm
    have hflash : flash = (Call.setState .rejected answer).onFlash closed := (congrArg Prod.snd marked).symm
    refine ⟨⟨_, hclose.snoc rfl hflash ⟨?_, fun answer' hcall => ?_⟩⟩, (fun hactive => by cases hactive), ?_⟩
    · rw [hreplay]
      exact hclosed.spared
    · obtain ⟨-, rfl⟩ := Call.setState.inj hcall
      rw [hreplay, FlashDevice.replay_snoc, hreplay, ← hflash]
      exact ⟨⟨_, _, _, rfl⟩, hopen, FaultyPartition.setState_rejected hopen marked⟩
    · change flash.partition.rollbackRequested = false
      rw [hflash]
      exact FaultyPartition.spares_onFlash _ (fun _ _ => hopen) hclosed.spared
  | dropped busy answered terminal =>
    exact h.snoc rfl (congrArg Prod.snd answered).symm (fun _ => Call.noConfusion) fun hactive => by cases hactive
  | @discarded aborted _ answer _ busy answered open_ marked =>
    have haborted : Sparing d₀ ({ d with flash := aborted, transfer := {} }.note (.abort answer)) :=
      h.snoc rfl (congrArg Prod.snd answered).symm (fun _ => Call.noConfusion) fun hactive => by cases hactive
    exact haborted.snoc rfl (congrArg Prod.snd marked).symm (fun _ => by simp) fun hactive => by cases hactive

theorem keeping : Update.Keeping (Sparing d₀ : Device C FaultyPartition → Prop) :=
  .of_step keptOutward fun _ _ h hstep => h.step hstep

theorem keeps_activate : Keeps (Sparing d₀ : Device C FaultyPartition → Prop) Device.activate := fun d hd => by
  rw [Device.after_activate]
  refine hd.snoc rfl rfl (fun _ => Call.noConfusion) fun hactive => ?_
  have hopen := hd.backed hactive
  obtain ⟨_, hframe⟩ := d.flash.partition.activate_frame
  exact FaultyPartition.orElse_keeps (fun p => p.file.isSome = true) hopen (by rw [hframe]; exact hopen)

theorem keeps_accept : Keeps (Sparing d₀ : Device C FaultyPartition → Prop) (Device.setState .accepted) :=
  fun d hd => by
    rw [Device.after_setState]
    refine hd.snoc rfl rfl (fun _ => by simp) fun hactive => ?_
    have hopen := hd.backed hactive
    refine FaultyPartition.orElse_keeps (fun p => p.file.isSome = true) hopen ?_
    unfold Partition.setState
    split <;> exact hopen

theorem keeps_start (s : Service) :
    Keeps (Sparing d₀ : Device C FaultyPartition → Prop) (s.start : Task C FaultyPartition DeviceError Unit) := by
  refine keeps_bind (keeps_raising ?_) fun _ => keptOutward.tell _
  unfold Update.confirmBoot
  refine keeps_bind (fun _ hd => hd) fun state => ?_
  split
  · exact keeps_pure _
  · exact keeps_bind (keeps_raising keeps_accept) fun _ => keeps_pure _

theorem keeping_handle [RangeSource C] : Service.Keeping (Sparing d₀ : Device C FaultyPartition → Prop) :=
  .of_parts keptOutward (fun _ _ hd => hd.snoc rfl rfl (fun _ => Call.noConfusion) hd.backed)
    (fun _ _ _ hd => hd.snoc rfl rfl (fun _ => Call.noConfusion) hd.backed) (Update.keeps_download keeping)
    (keeping.abandon _) keeps_activate

end Sparing

theorem Device.Fresh.sparing {d : Device C FaultyPartition} (h : d.Fresh) : Sparing d d := by
  obtain ⟨capacity, state, hpartition⟩ := h.partition
  refine ⟨⟨[], Device.leads_refl _ d⟩, fun hactive => ?_, ?_⟩
  · rw [h.transfer] at hactive
    cases hactive
  · rw [hpartition]

namespace Service

variable [RangeSource C]

/-- The devices that boot confirmations and messages lead to, in any order and any number. -/
inductive Runs (s : Service) (d₀ : Device C FaultyPartition) : Device C FaultyPartition → Prop
  | boot : Runs s d₀ d₀
  | start {d} : Runs s d₀ d → Runs s d₀ (s.start.after d)
  | handle (payload : Bytes) {d} : Runs s d₀ d → Runs s d₀ ((s.handle payload).after d)

theorem Runs.sparing {s : Service} {d₀ d : Device C FaultyPartition} (h : s.Runs d₀ d) (hfresh : d₀.Fresh) :
    Sparing d₀ d := by
  induction h with
  | boot => exact hfresh.sparing
  | start _ ih => exact Sparing.keeps_start s _ ih
  | handle payload _ ih => exact keeps_handle Sparing.keeping_handle s payload _ ih

/-- **Update traffic never rolls the running image back**, whatever is received and whatever the flash device refuses.
At every moment of a run no rollback has been requested; an image is marked rejected only right after its file failed
to close, and that mark finds the file open and discards no more than what was received. -/
theorem never_rolls_back {s : Service} {d₀ d : Device C FaultyPartition} (hfresh : d₀.Fresh) (h : s.Runs d₀ d) :
    d.flash.partition.rollbackRequested = false ∧
      ∃ calls, d.calls = d₀.calls ++ calls ∧ d.flash = FlashDevice.replay d₀.flash calls ∧
        ∀ before call after, calls = before ++ call :: after → call.Spares d₀.flash before := by
  obtain ⟨⟨calls, hcalls⟩, -, hspared⟩ := h.sparing hfresh
  exact ⟨hspared, calls, hcalls.journal, hcalls.flash, hcalls.each⟩

def mismatchedPayload : Bytes :=
  Bytes.ofText ("\x7b\"ct\":1,\"sw\":\"01.00.07\",\"urls\":[\x7b\"url\":\"https://host/image\",\"sha256\":\"" ++
    String.ofList (List.replicate 64 '0') ++ "\"\x7d]\x7d")

/-- A device that booted an image on trial, before a server that serves three octets. -/
def onTrial : Device RehearsedSource FaultyPartition where
  source := { image := ⟨#[7, 8, 9]⟩ }
  flash := .sound { state := .testing }
  uplink := { topic := .empty }

theorem mismatched_never_rolls_back :
    ∃ d, ({} : Service).Runs onTrial d ∧ Call.setState .rejected (.ok ()) ∈ d.calls ∧
      d.flash.partition.rollbackRequested = false := by
  have hfresh : onTrial.Fresh := ⟨rfl, _, _, rfl⟩
  have hboot : ({} : Service).Runs onTrial onTrial := .boot
  have hrun := hboot.start.handle mismatchedPayload
  obtain ⟨hspared, -⟩ := never_rolls_back hfresh hrun
  exact ⟨_, hrun, by decide +kernel, hspared⟩

end Service
end Firmware
