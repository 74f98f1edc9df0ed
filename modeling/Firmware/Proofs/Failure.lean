import Mathlib.Data.List.Basic
import Firmware.Proofs.Bookkeeping
/-!
# Failure — an error changes nothing, or it is final

A request that a transfer refuses by itself leaves the device as it was, and the transfer can go on.  Every other error
leaves the transfer failed (`errors_spare_or_fail`), and then no block and no end of file is taken any more: another
file is opened, or the transfer is discarded.
-/
namespace Firmware.Transfer

variable {C F : Type} [FlashDevice F] {d d' : Device C F} {e : UpdateError}

namespace Request

/-- The errors that a transfer answers by itself, before it asks the flash device. -/
def refusesWith : Request → UpdateError → Bool
  | .begin _, .alreadyInProgress | .begin _, .emptyImage => true
  | .write _ _, .notReceiving | .write _ _, .nonSequential _ _ | .write _ _, .overflow => true
  | .finish, .notReceiving | .finish, .incompleteTransfer _ _ => true
  | _, _ => false

def goesOn : Request → Bool
  | .write _ _ | .finish => true
  | .begin _ | .abandon => false

def runAll : List Request → Device C F → List (Except UpdateError Unit) × Device C F
  | [], d => ([], d)
  | r :: rest, d => (r.task.result d :: (runAll rest (r.task.after d)).1, (runAll rest (r.task.after d)).2)

end Request

/-! ## What an error leaves -/

theorem refusesWith_of_misfit {offset : UInt32} {block : Bytes} {phase : Phase}
    (h : misfit? phase offset block = some e) : (Request.write offset block).refusesWith e = true := by
  cases phase with
  | receiving expected written =>
    simp only [misfit?] at h
    split at h
    · split at h <;> cases h
      rfl
    · cases h
      rfl
  | idle | validating | ready | failed =>
    cases h
    rfl

theorem not_refusesWith_of_fault {offset : UInt32} {block : Bytes} {answer : Except FlashError Nat}
    (h : fault? offset block answer = some e) : (Request.write offset block).refusesWith e = false := by
  cases answer with
  | error fault =>
    cases h
    rfl
  | ok taken =>
    simp only [fault?] at h
    split at h <;> cases h
    rfl

/-- **An error of the transfer itself spares the device, and any other error fails the transfer.** -/
theorem spared_or_failed {r : Request} (h : r.task d = .error e d') :
    (r.refusesWith e = true ∧ d' = d) ∨ (r.refusesWith e = false ∧ d'.transfer.phase = .failed) := by
  cases r with
  | begin file =>
    obtain ⟨hsame, rfl | rfl⟩ | ⟨hfailed, fault, rfl⟩ := begin_eq_error h
    · exact .inl ⟨rfl, hsame⟩
    · exact .inl ⟨rfl, hsame⟩
    · exact .inr ⟨rfl, by rw [hfailed]⟩
  | write offset block =>
    obtain ⟨hsame, hmisfit⟩ | ⟨-, hfailed, answer, -, hfault⟩ := write_eq_error (Task.discard_eq_error.1 h)
    · exact .inl ⟨refusesWith_of_misfit hmisfit, hsame⟩
    · exact .inr ⟨not_refusesWith_of_fault hfault, by rw [hfailed]⟩
  | finish =>
    obtain ⟨hsame, rfl | ⟨expected, written, rfl⟩⟩ | ⟨-, hfailed, fault, rfl⟩ := finish_eq_error h
    · exact .inl ⟨rfl, hsame⟩
    · exact .inl ⟨rfl, hsame⟩
    · exact .inr ⟨rfl, by rw [hfailed]⟩
  | abandon =>
    obtain ⟨m, hrun⟩ := abandon_eq_ok (ε := UpdateError) d
    cases h.symm.trans hrun

/-! ## After a failure -/

theorem run_of_failed (hfailed : d.transfer.phase = .failed) {r : Request} (hgoes : r.goesOn = true) :
    r.task d = .error .notReceiving d := by
  cases r with
  | write offset block =>
    have hmisfit : misfit? d.transfer.phase offset block = some .notReceiving := by
      rw [hfailed]
      rfl
    exact Task.discard_of_error (write_of_misfit hmisfit)
  | finish =>
    change Transfer.finish d = _
    unfold Transfer.finish
    rw [Device.bind_transferNow]
    simp only [hfailed]
    rfl
  | begin _ | abandon => cases hgoes

/-- **A failed transfer stays as it is, whatever blocks it is given and however often it is to finish.** -/
theorem runAll_of_failed (hfailed : d.transfer.phase = .failed) {requests : List Request}
    (hgo : ∀ r ∈ requests, r.goesOn = true) :
    Request.runAll requests d = (List.replicate requests.length (.error .notReceiving), d) := by
  induction requests with
  | nil => rfl
  | cons r rest ih =>
    have hrun := run_of_failed hfailed (hgo r List.mem_cons_self)
    have hrest := ih fun r hmem => hgo r (List.mem_cons_of_mem _ hmem)
    simp only [Request.runAll, Task.result_of_error hrun, Task.after_of_error hrun, hrest, List.length_cons,
      List.replicate_succ]

theorem after_begin_of_free (hfree : d.transfer.isActive = false) {file : ReceiveFile} (hsize : file.size ≠ 0) :
    ((begin file).after d).calls = d.calls ++ [.create file (FlashDevice.create d.flash file).1] ∧
      (((begin file).after d).transfer.phase = .failed ↔ (FlashDevice.create d.flash file).1 ≠ .ok ()) := by
  unfold begin
  rw [Task.after_congr (Device.bind_transferNow _ d)]
  simp only [Task.throw_bind, hfree, hsize, Bool.false_eq_true, if_false]
  rw [Task.after_congr (Task.bind_of_ok (Device.attempt_create file d))]
  rcases hcreate : FlashDevice.create d.flash file with ⟨_ | _, flash⟩
  · have hphase : ({ phase := .failed, file := some file } : Transfer).phase = .failed := rfl
    exact ⟨Device.calls_note _ _, iff_of_true hphase (by simp)⟩
  · have hphase : ({ phase := .receiving file.size 0, file := some file } : Transfer).phase ≠ .failed := by simp
    exact ⟨Device.calls_note _ _, iff_of_false hphase (by simp)⟩

/-- No request that goes on with the file under way asks the flash device or changes anything.  A new file asks it once,
and gets the transfer on if it is opened; discarding the transfer always does. -/
structure Stuck (d : Device C F) : Prop where
  stays : ∀ requests : List Request, (∀ r ∈ requests, r.goesOn = true) →
    Request.runAll requests d = (List.replicate requests.length (.error .notReceiving), d)
  opens : ∀ file, file.size ≠ 0 →
    ((Request.begin file).task.after d).calls = d.calls ++ [.create file (FlashDevice.create d.flash file).1] ∧
      (((Request.begin file).task.after d).transfer.phase = .failed ↔ (FlashDevice.create d.flash file).1 ≠ .ok ())
  discards : ∃ d', Request.abandon.task d = .ok () d' ∧ d'.transfer = {}

theorem stuck_of_failed (hfailed : d.transfer.phase = .failed) : Stuck d where
  stays _ hgo := runAll_of_failed hfailed hgo
  opens file hsize := by
    have hfree : d.transfer.isActive = false := by simp only [isActive, hfailed]
    exact after_begin_of_free hfree hsize
  discards := by
    have hbusy : d.transfer.phase ≠ .idle := fun hidle => by
      rw [hidle] at hfailed
      cases hfailed
    obtain ⟨d', hrun, htransfer, -⟩ := abandon_of_not_idle (ε := UpdateError) hbusy
    exact ⟨d', hrun, htransfer⟩

/-- **Errors change nothing, or they are final**: a transfer that refuses a request by itself is as it was, any other
error fails it, and a transfer that failed is stuck until a file is opened or it is discarded. -/
theorem errors_spare_or_fail (d : Device C F) :
    (∀ (r : Request) (e : UpdateError) (d' : Device C F), r.task d = .error e d' →
      (r.refusesWith e = true ∧ d' = d) ∨ (r.refusesWith e = false ∧ d'.transfer.phase = .failed)) ∧
      (d.transfer.phase = .failed → Stuck d) :=
  ⟨fun _ _ _ h => spared_or_failed h, stuck_of_failed⟩

/-- A device that has opened a file of three octets, with a flash device that fails the second write. -/
def brittle : Device Unit FaultyPartition where
  source := ()
  flash := { partition := (({} : Partition).create signedFile).2, writes := [none, some (.fail .writeFailed)] }
  transfer := { phase := .receiving 3 0, file := some signedFile }
  uplink := { topic := .empty }

def misplaced : List Request := [.begin signedFile, .write 1 [8, 9], .finish]

theorem brittle_spares_then_sticks :
    (Request.runAll (misplaced ++ [.write 0 [7, 8, 9], .finish]) brittle).1 =
        [.error .alreadyInProgress, .error (.nonSequential 0 1), .error (.incompleteTransfer 3 0), .ok (), .ok ()] ∧
      (∀ r ∈ misplaced, ∀ e d', r.task brittle = .error e d' → d' = brittle) ∧
      ∃ d', (Request.write 2 [9]).task ((Request.write 0 [7, 8]).task.after brittle) = .error (.flash .writeFailed) d' ∧
        Stuck d' := by
  refine ⟨by decide +kernel, fun r hr e d' hrun => ?_, ?_⟩
  · obtain ⟨-, hsame⟩ | ⟨hfails, -⟩ := (errors_spare_or_fail brittle).1 _ _ _ hrun
    · exact hsame
    · simp only [misplaced, List.mem_cons, List.not_mem_nil, or_false] at hr
      rcases hr with rfl | rfl | rfl <;> cases hrun <;> cases hfails
  · obtain ⟨hrefused, -⟩ | ⟨-, hfailed⟩ :=
      (errors_spare_or_fail ((Request.write 0 [7, 8]).task.after brittle)).1 (.write 2 [9]) (.flash .writeFailed) _ rfl
    · cases hrefused
    · exact ⟨_, rfl, (errors_spare_or_fail _).2 hfailed⟩

end Firmware.Transfer
