import Firmware.Device
/-!
# Task — how a run ends, and what holds at its end

A run of a task ends with an answer (`result`), leaves a device (`after`) and adds calls to the journal (`made`).  The
first part takes a run apart into the runs of its steps.  The second part is about a property of devices that every
step keeps: the whole task keeps it, however its run ends.  The third part is about a property of errors: a task fails
with nothing else if its steps do not.
-/
namespace Firmware.Task

variable {C F ε ε' α β : Type}

/-! ## Taking a run apart -/

theorem bind_eq_ok {task : Task C F ε α} {next : α → Task C F ε β} {d d' : Device C F} {b : β} :
    (task >>= next) d = .ok b d' ↔ ∃ a m, task d = .ok a m ∧ next a m = .ok b d' := by
  simp only [bind, EStateM.bind]
  cases task d with
  | ok a m => exact ⟨fun h => ⟨a, m, rfl, h⟩, fun ⟨_, _, h, hb⟩ => by cases h; exact hb⟩
  | error e m => simp

theorem bind_of_ok {task : Task C F ε α} {next : α → Task C F ε β} {d m : Device C F} {a : α}
    (h : task d = .ok a m) : (task >>= next) d = next a m := by
  simp only [bind, EStateM.bind, h]

theorem bind_of_error {task : Task C F ε α} {next : α → Task C F ε β} {d m : Device C F} {e : ε}
    (h : task d = .error e m) : (task >>= next) d = .error e m := by
  simp only [bind, EStateM.bind, h]

@[simp] theorem pure_apply (a : α) (d : Device C F) : (pure a : Task C F ε α) d = .ok a d := rfl

@[simp] theorem throw_apply (e : ε) (d : Device C F) : (throw e : Task C F ε α) d = .error e d := rfl

@[simp] theorem throw_bind (e : ε) (next : α → Task C F ε β) : (throw e : Task C F ε α) >>= next = throw e := rfl

@[simp] theorem conclude_ok (a : α) (d : Device C F) : conclude (.ok a : Except ε α) d = .ok a d := rfl

@[simp] theorem conclude_error (e : ε) (d : Device C F) : conclude (.error e : Except ε α) d = .error e d := rfl

theorem conclude_eq_ok {answer : Except ε α} {d d' : Device C F} {a : α} :
    conclude answer d = .ok a d' ↔ answer = .ok a ∧ d = d' := by
  cases answer <;> simp

theorem conclude_eq_error {answer : Except ε α} {d d' : Device C F} {e : ε} :
    conclude answer d = .error e d' ↔ answer = .error e ∧ d = d' := by
  cases answer <;> simp

/-! ## Answer, device and calls of a run -/

def result (task : Task C F ε α) (d : Device C F) : Except ε α :=
  match task d with
  | .ok a _ => .ok a
  | .error e _ => .error e

def after (task : Task C F ε α) (d : Device C F) : Device C F :=
  match task d with
  | .ok _ d' => d'
  | .error _ d' => d'

/-- The calls that a run adds to the journal, oldest first. -/
def made (task : Task C F ε α) (d : Device C F) : List Call := (task.after d).calls.drop d.calls.length

theorem after_of_ok {task : Task C F ε α} {d d' : Device C F} {a : α} (h : task d = .ok a d') :
    task.after d = d' := by
  simp only [after, h]

theorem after_of_error {task : Task C F ε α} {d d' : Device C F} {e : ε} (h : task d = .error e d') :
    task.after d = d' := by
  simp only [after, h]

theorem result_of_ok {task : Task C F ε α} {d d' : Device C F} {a : α} (h : task d = .ok a d') :
    task.result d = .ok a := by
  simp only [result, h]

theorem result_of_error {task : Task C F ε α} {d d' : Device C F} {e : ε} (h : task d = .error e d') :
    task.result d = .error e := by
  simp only [result, h]

theorem after_congr {task task' : Task C F ε α} {d d' : Device C F} (h : task d = task' d') :
    task.after d = task'.after d' := by
  simp only [after, h]

theorem result_congr {task task' : Task C F ε α} {d d' : Device C F} (h : task d = task' d') :
    task.result d = task'.result d' := by
  simp only [result, h]

theorem eq_error_of_result {task : Task C F ε α} {d : Device C F} {e : ε} (h : task.result d = .error e) :
    task d = .error e (task.after d) := by
  unfold result after at *
  cases hrun : task d with
  | ok a m => simp [hrun] at h
  | error e' m => simpa [hrun] using h

theorem attempt_apply (task : Task C F ε α) (d : Device C F) :
    (attempt task : Task C F ε' _) d = .ok (task.result d) (task.after d) := by
  unfold attempt result after
  cases task d <;> rfl

theorem attempt_of_conclude {task : Task C F ε α} {d m : Device C F} {answer : Except ε α}
    (h : task d = conclude answer m) : (attempt task : Task C F ε' _) d = .ok answer m := by
  unfold attempt
  rw [h]
  cases answer <;> rfl

theorem after_of_conclude {task : Task C F ε α} {d m : Device C F} {answer : Except ε α}
    (h : task d = conclude answer m) : task.after d = m := by
  unfold after
  rw [h]
  cases answer <;> rfl

theorem discard_attempt (task : Task C F ε α) (d : Device C F) :
    (discard (attempt task : Task C F ε' _) : Task C F ε' Unit) d = .ok () (task.after d) := by
  change ((attempt task : Task C F ε' _) >>= fun _ => pure ()) d = _
  rw [bind_of_ok (attempt_apply task d), pure_apply]

theorem discard_eq_ok {task : Task C F ε α} {d d' : Device C F} :
    (discard task : Task C F ε Unit) d = .ok () d' ↔ ∃ a, task d = .ok a d' := by
  change (task >>= fun _ => pure ()) d = _ ↔ _
  constructor
  · intro h
    obtain ⟨a, m, hrun, hpure⟩ := bind_eq_ok.1 h
    cases hpure
    exact ⟨a, hrun⟩
  · rintro ⟨a, hrun⟩
    rw [bind_of_ok hrun, pure_apply]

theorem discard_of_error {task : Task C F ε α} {d d' : Device C F} {e : ε} (h : task d = .error e d') :
    (discard task : Task C F ε Unit) d = .error e d' := by
  change (task >>= fun _ => pure ()) d = _
  rw [bind_of_error h]

theorem discard_eq_error {task : Task C F ε α} {d d' : Device C F} {e : ε} :
    (discard task : Task C F ε Unit) d = .error e d' ↔ task d = .error e d' := by
  cases hrun : task d with
  | ok a m =>
    rw [discard_eq_ok.2 ⟨a, hrun⟩]
    simp
  | error e' m =>
    rw [discard_of_error hrun]
    simp

theorem after_raising (wrap : ε → ε') (task : Task C F ε α) (d : Device C F) :
    (raising wrap task).after d = task.after d := by
  unfold after raising
  cases task d <;> rfl

theorem after_bind_of_ok {task : Task C F ε α} {next : α → Task C F ε β} {d m : Device C F} {a : α}
    (h : task d = .ok a m) : (task >>= next).after d = (next a).after m :=
  after_congr (bind_of_ok h)

theorem after_bind_throw (task : Task C F ε α) (e : ε) (d : Device C F) :
    (task >>= fun _ => throw e : Task C F ε β).after d = task.after d := by
  cases hrun : task d with
  | ok a m =>
    have hthrow : (task >>= fun _ => throw e : Task C F ε β) d = .error e m := bind_of_ok hrun
    rw [after_of_error hthrow, after_of_ok hrun]
  | error e' m =>
    have hfail : (task >>= fun _ => throw e : Task C F ε β) d = .error e' m := bind_of_error hrun
    rw [after_of_error hfail, after_of_error hrun]

theorem bind_discard_attempt (task : Task C F ε α) (next : Unit → Task C F ε' β) (d : Device C F) :
    (discard (attempt task : Task C F ε' _) >>= next) d = next () (task.after d) :=
  bind_of_ok (discard_attempt task d)

theorem made_of_calls {task : Task C F ε α} {d : Device C F} {calls : List Call}
    (h : (task.after d).calls = d.calls ++ calls) : task.made d = calls := by
  simp only [made, h, List.drop_left]

/-! ## What every step keeps -/

/-- Wherever `P` holds before a run of the task, it holds after it. -/
def Keeps (P : Device C F → Prop) (task : Task C F ε α) : Prop := ∀ d, P d → P (task.after d)

section Keeps

variable {P : Device C F → Prop} {task : Task C F ε α}

theorem Keeps.of_ok (h : Keeps P task) {d d' : Device C F} {a : α} (hrun : task d = .ok a d') (hd : P d) : P d' :=
  after_of_ok hrun ▸ h d hd

theorem Keeps.of_error (h : Keeps P task) {d d' : Device C F} {e : ε} (hrun : task d = .error e d') (hd : P d) :
    P d' :=
  after_of_error hrun ▸ h d hd

theorem keeps_pure (a : α) : Keeps P (pure a : Task C F ε α) := fun _ hd => hd

theorem keeps_throw (e : ε) : Keeps P (throw e : Task C F ε α) := fun _ hd => hd

theorem keeps_conclude (answer : Except ε α) : Keeps P (conclude answer) := fun d hd => by
  cases answer <;> exact hd

theorem keeps_bind {next : α → Task C F ε β} (h : Keeps P task) (hnext : ∀ a, Keeps P (next a)) :
    Keeps P (task >>= next) := fun d hd => by
  cases hrun : task d with
  | ok a m =>
    have hm : P m := h.of_ok hrun hd
    simpa only [after, bind_of_ok hrun] using hnext a m hm
  | error e m =>
    have hm : P m := h.of_error hrun hd
    simpa only [after, bind_of_error hrun] using hm

theorem keeps_attempt (h : Keeps P task) : Keeps P (attempt task : Task C F ε' _) := fun d hd => by
  simpa only [after, attempt_apply] using h d hd

theorem keeps_discard (h : Keeps P task) : Keeps P (discard task : Task C F ε Unit) :=
  keeps_bind h fun _ => keeps_pure ()

theorem keeps_attempt_bind {next : Except ε α → Task C F ε' β} (h : Keeps P task)
    (herror : ∀ e, Keeps P (next (.error e))) (hok : ∀ a, Keeps P (next (.ok a))) :
    Keeps P (attempt task >>= next) := by
  refine keeps_bind (keeps_attempt h) fun answer => ?_
  cases answer with
  | error e => exact herror e
  | ok a => exact hok a

theorem keeps_raising {wrap : ε → ε'} (h : Keeps P task) : Keeps P (raising wrap task) := fun d hd => by
  rw [after_raising]
  exact h d hd

end Keeps

/-! ## What every failure satisfies -/

/-- Whatever the task fails with satisfies `P`. -/
def Throws (P : ε → Prop) (task : Task C F ε α) : Prop := ∀ d e d', task d = .error e d' → P e

section Throws

variable {P : ε → Prop} {Q : ε' → Prop} {task : Task C F ε α}

theorem throws_pure (a : α) : Throws P (pure a : Task C F ε α) := fun _ _ _ h => by cases h

theorem throws_throw {e : ε} (he : P e) : Throws P (throw e : Task C F ε α) := fun _ _ _ h => by
  cases h
  exact he

theorem throws_conclude {answer : Except ε α} (h : ∀ e, answer = .error e → P e) :
    Throws P (conclude answer : Task C F ε α) := fun _ e _ hrun => h e (conclude_eq_error.1 hrun).1

theorem throws_bind {next : α → Task C F ε β} (h : Throws P task) (hnext : ∀ a, Throws P (next a)) :
    Throws P (task >>= next) := fun d e d' hrun => by
  cases htask : task d with
  | ok a m =>
    rw [bind_of_ok htask] at hrun
    exact hnext a m e d' hrun
  | error e' m =>
    rw [bind_of_error htask] at hrun
    cases hrun
    exact h d _ _ htask

theorem throws_bind_of_ok {next : α → Task C F ε β} (h : ∀ d, ∃ a m, task d = .ok a m)
    (hnext : ∀ a, Throws P (next a)) : Throws P (task >>= next) := by
  refine throws_bind (fun d e d' hrun => ?_) hnext
  obtain ⟨a, m, hok⟩ := h d
  rw [hok] at hrun
  cases hrun

theorem throws_discard (h : Throws P task) : Throws P (discard task : Task C F ε Unit) :=
  throws_bind h fun _ => throws_pure ()

theorem throws_attempt_bind {next : Except ε α → Task C F ε' β} (h : Throws P task)
    (herror : ∀ e, P e → Throws Q (next (.error e))) (hok : ∀ a, Throws Q (next (.ok a))) :
    Throws Q (attempt task >>= next) := fun d e d' hrun => by
  rw [bind_of_ok (attempt_apply task d)] at hrun
  cases htask : task d with
  | ok a m =>
    rw [result_of_ok htask] at hrun
    exact hok a _ e d' hrun
  | error e' m =>
    rw [result_of_error htask] at hrun
    exact herror e' (h d e' m htask) _ e d' hrun

theorem throws_raising {wrap : ε → ε'} (h : ∀ e, Q (wrap e)) : Throws Q (raising wrap task) := fun d e d' hrun => by
  unfold raising at hrun
  cases htask : task d with
  | ok a m => simp [htask] at hrun
  | error e' m =>
    simp only [htask, EStateM.Result.error.injEq] at hrun
    exact hrun.1 ▸ h e'

end Throws
end Firmware.Task
