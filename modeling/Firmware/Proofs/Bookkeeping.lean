import Firmware.Proofs.Transfer
/-!
# Bookkeeping — what a transfer says about its partition

A transfer and its partition keep separate records: a phase with its counts here, a file with its own count, its digest
and its octets there.  Requests may come in any order, and the flash device may refuse or cut any of them.  After each
request the two records agree (`bookkeeping_matches_slot`): the phase tells what is in the slot, down to the octets.
-/
namespace Firmware.Transfer

variable {C : Type}

inductive Request where
  | begin (file : ReceiveFile)
  | write (offset : UInt32) (block : Bytes)
  | finish
  | abandon

namespace Request

def task {F : Type} [FlashDevice F] : Request → Task C F UpdateError Unit
  | .begin file => Transfer.begin file
  | .write offset block => discard (Transfer.write offset block)
  | .finish => Transfer.finish
  | .abandon => Transfer.abandon

def extend (received : Bytes) : Request → Except UpdateError Unit → Bytes
  | .begin _, .ok () => []
  | .write _ block, .ok () => received ++ block
  | .begin _, .error _ | .write _ _, .error _ | .finish, _ | .abandon, _ => received

end Request

/-- The devices that requests lead to, one after the other, with the blocks written since a file was last opened. -/
inductive Reaches (d₀ : Device C FaultyPartition) : Bytes → Device C FaultyPartition → Prop
  | start : Reaches d₀ [] d₀
  | request (r : Request) {received d} :
      Reaches d₀ received d → Reaches d₀ (r.extend received (r.task.result d)) (r.task.after d)

/-! ## What a phase stands for -/

/-- The partition holds the whole file, closed, on trial, and with the digest that it was signed with. -/
structure Holds (p : Partition) (file : ReceiveFile) (image : Bytes) : Prop where
  slot : p.image = image
  length : image.length = file.size.toNat
  closed : p.isClosed = true
  state : p.state = .testing
  digest : ∀ signature, file.signature = some signature → Sha256.digest image = signature.data

inductive Standing (received : Bytes) (d : Device C FaultyPartition) : Prop
  | idle (transfer : d.transfer = {})
  | receiving (file : ReceiveFile) (size : file.size ≠ 0) (inStep : InStep file received d)
  | ready (file : ReceiveFile) (transfer : d.transfer = { phase := .ready, file := some file })
      (holds : Holds d.flash.partition file received)
  | failed (file : ReceiveFile) (transfer : d.transfer = { phase := .failed, file := some file })

namespace Standing

variable {received : Bytes} {d d' : Device C FaultyPartition}

theorem inStep (h : Standing received d) {expected written : UInt32}
    (hphase : d.transfer.phase = .receiving expected written) :
    ∃ file, file.size ≠ 0 ∧ InStep file received d := by
  cases h with
  | receiving file size inStep => exact ⟨file, size, inStep⟩
  | idle transfer | ready _ transfer _ | failed _ transfer =>
    rw [transfer] at hphase
    cases hphase

theorem fail (h : Standing received d) {expected written : UInt32}
    (hphase : d.transfer.phase = .receiving expected written)
    (htransfer : d'.transfer = { phase := .failed, file := d.transfer.file }) (after : Bytes) : Standing after d' := by
  obtain ⟨file, -, hin⟩ := h.inStep hphase
  refine .failed file ?_
  rw [htransfer, hin.current]

/-! One lemma for each request. -/

theorem begin (h : Standing received d) (file : ReceiveFile) :
    Standing ((Request.begin file).extend received ((Request.begin file).task.result d))
      ((Request.begin file).task.after d) := by
  rcases hrun : Transfer.begin file d with ⟨_, d'⟩ | ⟨e, d'⟩
  · simp only [Request.task, Task.result_of_ok hrun, Task.after_of_ok hrun, Request.extend]
    obtain ⟨hsize, -⟩ := begin_eq_ok hrun
    obtain ⟨hin, -⟩ := inStep_begin hrun
    exact .receiving file hsize hin
  · simp only [Request.task, Task.result_of_error hrun, Task.after_of_error hrun, Request.extend]
    obtain ⟨rfl, -⟩ | ⟨htransfer, -⟩ := begin_eq_error hrun
    · exact h
    · exact .failed file htransfer

theorem write (h : Standing received d) (offset : UInt32) (block : Bytes) :
    Standing ((Request.write offset block).extend received ((Request.write offset block).task.result d))
      ((Request.write offset block).task.after d) := by
  rcases hrun : Transfer.write offset block d with ⟨n, d'⟩ | ⟨e, d'⟩
  · have hdone : (discard (Transfer.write offset block) : Task C FaultyPartition UpdateError Unit) d = .ok () d' :=
      Task.discard_eq_ok.2 ⟨n, hrun⟩
    simp only [Request.task, Task.result_of_ok hdone, Task.after_of_ok hdone, Request.extend]
    obtain ⟨hfits, -⟩ := write_eq_ok hrun
    obtain ⟨expected, hphase, -⟩ := misfit?_eq_none.1 hfits
    obtain ⟨file, hsize, hin⟩ := h.inStep hphase
    obtain ⟨hnext, -⟩ := hin.write hrun
    exact .receiving file hsize hnext
  · have hdone : (discard (Transfer.write offset block) : Task C FaultyPartition UpdateError Unit) d = .error e d' :=
      Task.bind_of_error hrun
    simp only [Request.task, Task.result_of_error hdone, Task.after_of_error hdone, Request.extend]
    obtain ⟨rfl, -⟩ | ⟨hfits, htransfer, -⟩ := write_eq_error hrun
    · exact h
    · obtain ⟨expected, hphase, -⟩ := misfit?_eq_none.1 hfits
      exact h.fail hphase htransfer received

theorem finish (h : Standing received d) :
    Standing (Request.finish.extend received (Request.finish.task.result d)) (Request.finish.task.after d) := by
  rcases hrun : Transfer.finish d with ⟨_, d'⟩ | ⟨e, d'⟩
  · simp only [Request.task, Task.after_of_ok hrun, Request.extend]
    obtain ⟨current, expected, flash, hfull, -, hstate, -⟩ := finish_eq_ok hrun
    have hphase : d.transfer.phase = .receiving expected expected := by rw [hfull]
    obtain ⟨file, -, hin⟩ := h.inStep hphase
    obtain ⟨htransfer, hclosed, himage, hlength, hsigned, -⟩ := hin.finish hrun
    have htesting := Partition.setState_testing_eq_ok (FaultyPartition.setState_eq_ok hstate)
    refine .ready file htransfer ⟨himage, hlength, hclosed, ?_, hsigned⟩
    rw [htesting]
  · simp only [Request.task, Task.after_of_error hrun, Request.extend]
    obtain ⟨rfl, -⟩ | ⟨⟨expected, hphase⟩, htransfer, -⟩ := finish_eq_error hrun
    · exact h
    · exact h.fail hphase htransfer received

theorem abandon (h : Standing received d) :
    Standing (Request.abandon.extend received (Request.abandon.task.result d)) (Request.abandon.task.after d) := by
  simp only [Request.task, Request.extend]
  by_cases hidle : d.transfer.phase = .idle
  · have hrun : (Transfer.abandon : Task C FaultyPartition UpdateError Unit) d = .ok () d := abandon_of_idle hidle
    rw [Task.after_of_ok hrun]
    exact h
  · obtain ⟨d', hrun, htransfer, -⟩ := abandon_of_not_idle (ε := UpdateError) hidle
    rw [Task.after_of_ok hrun]
    exact .idle htransfer

theorem request (h : Standing received d) (r : Request) :
    Standing (r.extend received (r.task.result d)) (r.task.after d) := by
  cases r with
  | begin file => exact h.begin file
  | write offset block => exact h.write offset block
  | finish => exact h.finish
  | abandon => exact h.abandon

end Standing

namespace Reaches

variable {received : Bytes} {d₀ d : Device C FaultyPartition}

theorem standing (h : Reaches d₀ received d) (hnew : d₀.transfer = {}) : Standing received d := by
  induction h with
  | start => exact .idle hnew
  | request r _ ih => exact ih.request r

theorem capacity (h : Reaches d₀ received d) : d.flash.partition.capacity = d₀.flash.partition.capacity := by
  have hkept := keptInward_capacity (C := C) d₀.flash.partition.capacity
  induction h with
  | start => rfl
  | request r _ ih =>
    cases r with
    | begin file => exact keeps_begin hkept file _ ih
    | write offset block => exact Task.keeps_discard (keeps_write hkept offset block) _ ih
    | finish => exact keeps_finish hkept _ ih
    | abandon => exact keeps_abandon hkept _ ih

end Reaches

/-! ## The two records agree -/

/-- What the phase of a transfer says about a partition of this capacity, when `received` was written to its file. -/
structure Matches (capacity : Nat) (received : Bytes) (d : Device C FaultyPartition) : Prop where
  receiving : ∀ expected written, d.transfer.phase = .receiving expected written →
    0 < expected ∧ written ≤ expected ∧ d.flash.partition.image = received ∧ received.length = written.toNat ∧
      ∃ file current, d.transfer.file = some file ∧ file.size = expected ∧
        d.flash.partition.file = some current ∧ current.size = expected ∧ current.closed = false
  ready : d.transfer.phase = .ready →
    d.flash.partition.image = received ∧ d.flash.partition.state = .testing ∧
      (∃ q, d.flash.partition.activate = (.ok (), q)) ∧
      ∃ file, d.transfer.file = some file ∧ received.length = file.size.toNat ∧
        ∀ signature, file.signature = some signature → Sha256.digest d.flash.partition.image = signature.data
  idle : d.transfer.phase = .idle ↔ d.transfer.file = none
  settled : d.transfer.phase ≠ .validating
  reusable : ∃ m, (Transfer.abandon : Task C FaultyPartition UpdateError Unit) d = .ok () m ∧ m.transfer.phase = .idle ∧
    ∀ file : ReceiveFile, 1 ≤ file.size.toNat → file.size.toNat ≤ capacity → m.flash.creates.head?.join = none →
      ∃ m', Transfer.begin file m = .ok () m'

/-- **After every request the bookkeeping matches the slot**, whatever was requested before and whatever the flash
device refused or cut. -/
theorem bookkeeping_matches_slot {received : Bytes} {d₀ d : Device C FaultyPartition} (hnew : d₀.transfer = {})
    (h : Reaches d₀ received d) : Matches d₀.flash.partition.capacity received d := by
  have hstanding := h.standing hnew
  refine ⟨fun expected written hphase => ?_, fun hready => ?_, ?_, ?_, ?_⟩
  · obtain ⟨file, hsize, hin⟩ := hstanding.inStep hphase
    obtain ⟨rfl, rfl⟩ := Phase.receiving.inj (hin.phase.symm.trans hphase)
    have hwritten := hin.receives.written_toNat
    refine ⟨UInt32.pos_iff_ne_zero.2 hsize, ?_, hin.receives.holds, hwritten.symm, file, _, hin.current, rfl,
      hin.receives.opened, rfl, rfl⟩
    rw [UInt32.le_iff_toNat_le, hwritten]
    exact hin.receives.fits
  · cases hstanding with
    | ready file transfer holds =>
      obtain ⟨hslot, hlength, hclosed, hstate, hdigest⟩ := holds
      refine ⟨hslot, hstate, ⟨_, if_pos hclosed⟩, file, by rw [transfer], hlength, ?_⟩
      rw [hslot]
      exact hdigest
    | idle transfer | failed _ transfer =>
      rw [transfer] at hready
      cases hready
    | receiving file size inStep =>
      rw [inStep.phase] at hready
      cases hready
  · cases hstanding with
    | idle transfer => simp [transfer]
    | receiving file size inStep => simp [inStep.phase, inStep.current]
    | ready file transfer _ | failed file transfer => simp [transfer]
  · cases hstanding with
    | idle transfer | ready file transfer _ | failed file transfer => simp [transfer]
    | receiving file size inStep => simp [inStep.phase]
  · obtain ⟨m, habandon⟩ : ∃ m, (Transfer.abandon : Task C FaultyPartition UpdateError Unit) d = .ok () m :=
      abandon_eq_ok d
    have hidle := idle_of_abandon habandon
    have hcapacity := (h.request .abandon).capacity
    simp only [Request.task, Task.after_of_ok habandon] at hcapacity
    refine ⟨m, habandon, hidle, fun file hpos hroom hnext => ?_⟩
    have hsize : file.size ≠ 0 := fun h0 => by
      rw [h0] at hpos
      exact absurd hpos (by decide)
    rw [← hcapacity] at hroom
    obtain ⟨m', q, hbegin, -⟩ := begin_of_unfaulted hnext (free_of_idle hidle) hsize hroom
    exact ⟨m', hbegin⟩

def signedFile : ReceiveFile where
  path := .empty
  size := 3
  signature := some { certPath := ⟨"signer", by decide⟩, data := Sha256.digest [7, 8, 9] }

/-- A new device whose flash device refuses to open the first file and cuts the second write. -/
def obstructed : Device Unit FaultyPartition where
  source := ()
  flash := { partition := {}, creates := [some .createFailed], writes := [none, some (.cut 0)] }
  uplink := { topic := .empty }

theorem obstructed_matches :
    ∃ d : Device Unit FaultyPartition, d.transfer.phase = .ready ∧ Matches 4194304 [7, 8, 9] d := by
  have hnew : Reaches obstructed [] obstructed := .start
  have hfailed := hnew |>.request (.begin signedFile) |>.request (.begin signedFile)
    |>.request (.write 0 [7, 8]) |>.request (.write 2 [9])
  have hreach := hfailed |>.request (.begin signedFile) |>.request (.write 0 [7, 8]) |>.request (.write 2 [9])
    |>.request .finish
  have hmatches := bookkeeping_matches_slot rfl hreach
  refine ⟨_, ?_, hmatches⟩
  decide +kernel

end Firmware.Transfer
