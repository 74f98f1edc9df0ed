import Firmware.Proofs.Plan
import Firmware.Proofs.Transfer
import Firmware.Source.Rehearsed
/-!
# Course — the calls that a download makes

`Fetching` lists the calls that fetch one chunk, `Course` those that fetch and write the chunks of a plan, each with the
way it ends.  Whatever the source and the flash device answer, a run takes one of these courses
(`course_of_runPlan`).  What is asked for, how often, in which order and what is written is read off them.
-/
open Firmware.Task (Keeps)

namespace Firmware

/-- Why the answer to the request for a range ends a download, if it does. -/
def ByteRange.refusal? (range : ByteRange) : Except FetchError RangeAnswer → Option UpdateError
  | .ok answer =>
    if answer.isFailure then some (.fetch (.status answer.status))
    else if answer.bodySize.toNat = range.size.toNat then none
    else some (.unexpectedBodySize range.first range.size answer.bodySize.toUInt32)
  | .error e => if e.disposition = .fatal then some (.fetch e) else none

theorem ByteRange.refusal?_ok_eq_none {range : ByteRange} {answer : RangeAnswer} :
    range.refusal? (.ok answer) = none ↔
      answer.isFailure = false ∧ answer.bodySize.toNat = range.size.toNat := by
  unfold refusal?
  by_cases hfailure : answer.isFailure = true
  · simp [hfailure]
  · by_cases hsize : answer.bodySize.toNat = range.size.toNat
    · simp [hfailure, hsize]
    · simp [hfailure, hsize]

/-- The answer to the call ends a download with this error, whatever was called before. -/
def Call.Fails (e : UpdateError) : Call → Prop
  | .fetch _ range answer _ => range.refusal? answer = some e
  | .write offset block answer => Transfer.fault? offset block answer = some e
  | .connect .. | .disconnect _ | .create .. | .close .. | .abort _ | .activate _ | .setState .. | .wait _
  | .acknowledge .. | .drive .. | .tell _ => False

/-- The call ends a download with this error: its answer fails it, or breaks off the last request that the retries
allow. -/
def Call.Raises (e : UpdateError) (call : Call) : Prop :=
  call.Fails e ∨ ∃ resource range fault buffer attempts, call = .fetch resource range (.error fault) buffer ∧
    fault.disposition = .retryable ∧ e = .retriesExhausted range.first attempts

def Call.asked? : Call → Option ByteRange
  | .fetch _ range _ _ => some range
  | .connect .. | .disconnect _ | .create .. | .write .. | .close .. | .abort _ | .activate _ | .setState .. | .wait _
  | .acknowledge .. | .drive .. | .tell _ => none

def Call.isFollowUp : Call → Bool
  | .write .. | .tell _ => true
  | .connect .. | .disconnect _ | .fetch .. | .create .. | .close .. | .abort _ | .activate _ | .setState .. | .wait _
  | .acknowledge .. | .drive .. => false

theorem Call.asked?_of_isFollowUp {call : Call} (h : call.isFollowUp = true) : call.asked? = none := by
  cases call <;> first | rfl | cases h

theorem ByteRange.refusal?_of_retryable {range : ByteRange} {e : FetchError} (h : e.disposition = .retryable) :
    range.refusal? (.error e) = none :=
  if_neg (by rw [h]; decide)

theorem FetchError.disposition_eq_retryable {e : FetchError} :
    e.disposition = .retryable ↔ e = .network ∨ e = .notConnected := by
  cases e <;> simp [disposition]

/-! ## Splitting a list of calls -/

theorem split_append {α : Type} {x : α} {before after : List α} :
    ∀ {xs ys : List α}, xs ++ ys = before ++ x :: after →
      (∃ tail, xs = before ++ x :: tail ∧ after = tail ++ ys) ∨
        ∃ head, before = xs ++ head ∧ ys = head ++ x :: after := by
  intro xs ys h
  rcases List.append_eq_append_iff.1 h with ⟨head, hbefore, hys⟩ | ⟨tail, hxs, hafter⟩
  · exact .inr ⟨head, hbefore, hys⟩
  · cases tail with
    | nil => exact .inr ⟨[], by simpa using hxs.symm, by simpa using hafter.symm⟩
    | cons y tail =>
      obtain ⟨rfl, rfl⟩ := List.cons.inj hafter
      exact .inl ⟨tail, hxs, rfl⟩

theorem suffix_singleton {α : Type} {x y : α} {after : List α} (h : x :: after <:+ [y]) : x = y ∧ after = [] :=
  List.cons.inj ((List.suffix_cons_iff.1 h).resolve_right (by simp))

theorem suffix_append {α : Type} {x : α} {after xs ys : List α} (h : x :: after <:+ xs ++ ys) :
    (∃ tail, after = tail ++ ys ∧ x :: tail <:+ xs) ∨ x :: after <:+ ys := by
  obtain ⟨before, hsplit⟩ := h
  rcases split_append hsplit.symm with ⟨tail, rfl, hafter⟩ | ⟨head, -, rfl⟩
  · exact .inl ⟨tail, hafter, List.suffix_append _ _⟩
  · exact .inr (List.suffix_append _ _)

namespace Download

variable {u : UpdateSettings} {url : ImageUrl} {range : ByteRange}

/-! ## One chunk -/

section Chunk

variable {C F ε : Type} [RangeSource C]

/-- **A request is one fetch**: its answer is refused, is the chunk, or breaks off. -/
theorem request_cases {buffer left : Bytes} {answer : Except FetchError RangeAnswer} {source : C} {d : Device C F}
    (hfetch : RangeSource.fetch d.source url.resource.text range buffer = (⟨answer, left⟩, source)) :
    (∃ e, range.refusal? answer = some e ∧ request url range buffer d =
        .error e ({ d with source }.note (.fetch url.resource.text range answer left))) ∨
      (∃ response, answer = .ok response ∧ range.refusal? answer = none ∧ request url range buffer d =
        .ok (.received left) ({ d with source }.note (.fetch url.resource.text range answer left))) ∨
      ∃ e, answer = .error e ∧ e.disposition = .retryable ∧ request url range buffer d =
        .ok (.interrupted left) ({ d with source }.note (.fetch url.resource.text range answer left)) := by
  unfold request
  rw [Device.bind_fetch, hfetch]
  simp only [Task.throw_bind]
  cases answer with
  | ok response =>
    simp only
    by_cases hfailure : response.isFailure = true
    · exact .inl ⟨_, if_pos hfailure, by rw [if_pos hfailure]; rfl⟩
    by_cases hsize : response.bodySize.toNat = range.size.toNat
    · refine .inr (.inl ⟨response, rfl, (if_neg hfailure).trans (if_pos hsize), ?_⟩)
      rw [if_neg hfailure, if_neg (Decidable.not_not.2 hsize)]
      rfl
    · refine .inl ⟨_, (if_neg hfailure).trans (if_neg hsize), ?_⟩
      rw [if_neg hfailure, if_pos hsize]
      rfl
  | error e =>
    simp only
    by_cases hfatal : e.disposition = .fatal
    · exact .inl ⟨_, if_pos hfatal, by rw [if_pos hfatal]; rfl⟩
    · have hretryable : e.disposition = .retryable := by
        cases hdisposition : e.disposition with
        | fatal => exact absurd hdisposition hfatal
        | retryable => rfl
      refine .inr (.inr ⟨e, rfl, hretryable, ?_⟩)
      rw [if_neg hfatal]
      rfl

theorem reconnect_eq_ok (u : UpdateSettings) (host : String) (d : Device C F) :
    ∃ wasOpen opened d', (reconnect u host : Task C F ε Unit) d = .ok () d' ∧
      d'.source = (RangeSource.connect (RangeSource.disconnect d.source) host).2 ∧ d'.flash = d.flash ∧
      d'.transfer = d.transfer ∧
      d'.calls = d.calls ++ [.wait u.retryBackoffMs, .disconnect wasOpen, .connect host opened] := by
  unfold reconnect
  rw [Device.bind_wait, Device.bind_disconnect, Task.discard_attempt, Device.after_connect]
  refine ⟨RangeSource.isOpen d.source, (RangeSource.connect (RangeSource.disconnect d.source) host).1, _, rfl, rfl, rfl,
    rfl, ?_⟩
  simp only [Device.calls, Device.note, List.reverse_cons, List.append_assoc, List.cons_append, List.nil_append]

theorem fetchChunk_of_refused {buffer : Bytes} {d m : Device C F} {e : UpdateError} (u : UpdateSettings)
    (attempts : UInt32) (retries : Nat) (h : request url range buffer d = .error e m) :
    fetchChunk u url range attempts buffer retries d = .error e m := by
  cases retries <;> exact Task.bind_of_error h

theorem fetchChunk_of_received {buffer left : Bytes} {d m : Device C F} (u : UpdateSettings) (attempts : UInt32)
    (retries : Nat) (h : request url range buffer d = .ok (.received left) m) :
    fetchChunk u url range attempts buffer retries d = .ok left m := by
  cases retries <;> exact Task.bind_of_ok h

theorem fetchChunk_of_interrupted {buffer left : Bytes} {d m m' : Device C F} {u : UpdateSettings}
    (attempts : UInt32) (retries : Nat) (h : request url range buffer d = .ok (.interrupted left) m)
    (hreconnect : (reconnect u url.host.text : Task C F UpdateError Unit) m = .ok () m') :
    fetchChunk u url range attempts buffer (retries + 1) d = fetchChunk u url range (attempts + 1) left retries m' := by
  rw [fetchChunk, Task.bind_of_ok h]
  exact Task.bind_of_ok hreconnect

/-- The calls that fetch a chunk when so many retries are left and so many attempts were made, and how they end. -/
inductive Fetching (u : UpdateSettings) (url : ImageUrl) (range : ByteRange) :
    (retries : Nat) → (attempts : UInt32) → List Call → Except UpdateError Bytes → Prop
  | received {retries attempts response buffer} (accepted : range.refusal? (.ok response) = none)
      (size : buffer.length = range.size.toNat) :
      Fetching u url range retries attempts [.fetch url.resource.text range (.ok response) buffer] (.ok buffer)
  | refused {retries attempts answer buffer e} (refusal : range.refusal? answer = some e) :
      Fetching u url range retries attempts [.fetch url.resource.text range answer buffer] (.error e)
  | exhausted {attempts e buffer} (interrupted : e.disposition = .retryable) :
      Fetching u url range 0 attempts [.fetch url.resource.text range (.error e) buffer]
        (.error (.retriesExhausted range.first (attempts + 1)))
  | again {retries attempts e buffer wasOpen opened calls outcome} (interrupted : e.disposition = .retryable)
      (rest : Fetching u url range retries (attempts + 1) calls outcome) :
      Fetching u url range (retries + 1) attempts
        (.fetch url.resource.text range (.error e) buffer :: .wait u.retryBackoffMs :: .disconnect wasOpen ::
          .connect url.host.text opened :: calls) outcome

theorem fetching_or_interrupted (u : UpdateSettings) (url : ImageUrl) {range : ByteRange} (attempts : UInt32)
    (retries : Nat) {buffer : Bytes} (d : Device C F) (hroom : buffer.length = range.size.toNat) :
    (∃ calls, ((fetchChunk u url range attempts buffer retries).after d).calls = d.calls ++ calls ∧
        Fetching u url range retries attempts calls ((fetchChunk u url range attempts buffer retries).result d)) ∨
      ∃ e left m, e.disposition = .retryable ∧ left.length = range.size.toNat ∧
        m.calls = d.calls ++ [.fetch url.resource.text range (.error e) left] ∧
        request url range buffer d = .ok (.interrupted left) m := by
  have hlength := RangeSource.length_fetch d.source url.resource.text range buffer
  rcases hfetch : RangeSource.fetch d.source url.resource.text range buffer with ⟨⟨answer, left⟩, source⟩
  rw [hfetch] at hlength
  rcases request_cases hfetch with ⟨e, hrefusal, hrun⟩ | ⟨response, rfl, haccepted, hrun⟩ |
    ⟨e, rfl, hinterrupted, hrun⟩
  · have hend := fetchChunk_of_refused u attempts retries hrun
    rw [Task.after_of_error hend, Task.result_of_error hend]
    exact .inl ⟨_, Device.calls_note _ _, .refused hrefusal⟩
  · have hend := fetchChunk_of_received u attempts retries hrun
    rw [Task.after_of_ok hend, Task.result_of_ok hend]
    exact .inl ⟨_, Device.calls_note _ _, .received haccepted (hlength.trans hroom)⟩
  · exact .inr ⟨e, left, { d with source }.note (.fetch url.resource.text range (.error e) left), hinterrupted,
      hlength.trans hroom, Device.calls_note _ _, hrun⟩

/-- **Whatever the source answers, a chunk is fetched in this way.** -/
theorem fetching_of_fetchChunk (u : UpdateSettings) (url : ImageUrl) (range : ByteRange) (retries : Nat) :
    ∀ (attempts : UInt32) {buffer : Bytes} (d : Device C F), buffer.length = range.size.toNat →
      ∃ calls, ((fetchChunk u url range attempts buffer retries).after d).calls = d.calls ++ calls ∧
        Fetching u url range retries attempts calls ((fetchChunk u url range attempts buffer retries).result d) := by
  induction retries with
  | zero =>
    intro attempts buffer d hroom
    rcases fetching_or_interrupted u url attempts 0 d hroom with hdone | ⟨e, left, m, hinterrupted, -, hcalls, hrun⟩
    · exact hdone
    · have hend : fetchChunk u url range attempts buffer 0 d =
          .error (.retriesExhausted range.first (attempts + 1)) m := Task.bind_of_ok hrun
      rw [Task.after_of_error hend, Task.result_of_error hend]
      exact ⟨_, hcalls, .exhausted hinterrupted⟩
  | succ retries ih =>
    intro attempts buffer d hroom
    rcases fetching_or_interrupted u url attempts (retries + 1) d hroom with
      hdone | ⟨e, left, m, hinterrupted, hleft, hcalls, hrun⟩
    · exact hdone
    · obtain ⟨wasOpen, opened, m', hreconnect, -, -, -, hm'⟩ := reconnect_eq_ok u url.host.text m
      have hend := fetchChunk_of_interrupted attempts retries hrun hreconnect
      obtain ⟨calls, hrest, hfetching⟩ := ih (attempts + 1) m' hleft
      rw [Task.after_congr hend, Task.result_congr hend]
      refine ⟨.fetch url.resource.text range (.error e) left :: .wait u.retryBackoffMs :: .disconnect wasOpen ::
        .connect url.host.text opened :: calls, ?_, .again hinterrupted hfetching⟩
      rw [hrest, hm', hcalls, List.append_assoc, List.append_assoc]
      rfl

end Chunk

theorem Fetching.length {retries : Nat} {attempts : UInt32} {calls : List Call} {chunk : Bytes}
    (h : Fetching u url range retries attempts calls (.ok chunk)) : chunk.length = range.size.toNat := by
  generalize houtcome : Except.ok chunk = outcome at h
  induction h with
  | received _ size =>
    cases houtcome
    exact size
  | refused _ => cases houtcome
  | exhausted _ => cases houtcome
  | again _ _ ih => exact ih houtcome

/-! ## One chunk, fetched and written -/

def announced (u : UpdateSettings) (total index : UInt32) (range : ByteRange) : List Call :=
  if tellsProgress u index then [.tell (.progress (percent range.first total) range.first total)] else []

/-- The calls that move one chunk from the source to the flash device, how they end, and the phase of the transfer
before and after. -/
inductive Moving (u : UpdateSettings) (url : ImageUrl) (total index : UInt32) (range : ByteRange) :
    Phase → List Call → Except UpdateError Unit → Phase → Prop
  | unfetched {phase calls e} (fetching : Fetching u url range u.maxRetries.toNat 0 calls (.error e)) :
      Moving u url total index range phase calls (.error e) phase
  | unfit {phase calls chunk e} (fetching : Fetching u url range u.maxRetries.toNat 0 calls (.ok chunk))
      (misfit : Transfer.misfit? phase range.first chunk = some e) :
      Moving u url total index range phase (calls ++ announced u total index range) (.error e) phase
  | failed {phase calls chunk answer e} (fetching : Fetching u url range u.maxRetries.toNat 0 calls (.ok chunk))
      (fits : Transfer.misfit? phase range.first chunk = none)
      (fault : Transfer.fault? range.first chunk answer = some e) :
      Moving u url total index range phase
        (calls ++ announced u total index range ++ [.write range.first chunk answer]) (.error e) .failed
  | moved {expected calls chunk} (fetching : Fetching u url range u.maxRetries.toNat 0 calls (.ok chunk))
      (fits : Transfer.misfit? (.receiving expected range.first) range.first chunk = none) :
      Moving u url total index range (.receiving expected range.first)
        (calls ++ announced u total index range ++ [.write range.first chunk (.ok chunk.length)]) (.ok ())
        (.receiving expected (range.first + range.size))

section Moving

variable {C F ε : Type}

theorem report_eq_ok (u : UpdateSettings) (total index : UInt32) (range : ByteRange) (d : Device C F) :
    ∃ d', (report u total index range : Task C F ε Unit) d = .ok () d' ∧ d'.transfer = d.transfer ∧
      d'.calls = d.calls ++ announced u total index range := by
  rw [report_apply]
  unfold announced
  by_cases htells : tellsProgress u index = true
  · rw [if_pos htells, if_pos htells]
    exact ⟨_, rfl, rfl, Device.calls_note _ _⟩
  · rw [if_neg htells, if_neg htells]
    exact ⟨d, rfl, rfl, (List.append_nil _).symm⟩

variable [FlashDevice F]

theorem moving_of_received {u : UpdateSettings} {url : ImageUrl} (total index : UInt32) {range : ByteRange}
    {before calls : List Call} {chunk : Bytes}
    (hfetching : Fetching u url range u.maxRetries.toNat 0 calls (.ok chunk)) {m : Device C F}
    (hcalls : m.calls = before ++ calls) :
    (∃ e d' calls', (report u total index range >>= fun _ => Transfer.write range.first chunk) m = .error e d' ∧
        d'.calls = before ++ calls' ∧
        Moving u url total index range m.transfer.phase calls' (.error e) d'.transfer.phase) ∨
      ∃ n d' calls', (report u total index range >>= fun _ => Transfer.write range.first chunk) m = .ok n d' ∧
        d'.calls = before ++ calls' ∧
        Moving u url total index range m.transfer.phase calls' (.ok ()) d'.transfer.phase := by
  obtain ⟨m₁, hreport, hm₁, htold⟩ := report_eq_ok u total index range m
  rw [Task.bind_of_ok hreport, ← hm₁]
  rw [hcalls, List.append_assoc] at htold
  rcases hwrite : Transfer.write range.first chunk m₁ with ⟨n, d'⟩ | ⟨e, d'⟩
  · obtain ⟨hfits, -, htransfer, hwritten⟩ := Transfer.write_eq_ok hwrite
    obtain ⟨expected, hphase, -⟩ := Transfer.misfit?_eq_none.1 hfits
    have hmoved : Moving u url total index range m₁.transfer.phase
        (calls ++ announced u total index range ++ [.write range.first chunk (.ok chunk.length)]) (.ok ())
        d'.transfer.phase := by
      rw [htransfer expected hphase, hfetching.length, UInt32.ofNat_toNat, hphase, ← hfetching.length]
      exact .moved hfetching (hphase ▸ hfits)
    exact .inr ⟨n, d', _, rfl, by rw [hwritten, htold, List.append_assoc], hmoved⟩
  · rcases Transfer.write_eq_error hwrite with ⟨rfl, hmisfit⟩ | ⟨hfits, hfailed, answer, hwritten, hfault⟩
    · exact .inl ⟨e, d', _, rfl, htold, .unfit hfetching hmisfit⟩
    · have hmoved : Moving u url total index range m₁.transfer.phase
          (calls ++ announced u total index range ++ [.write range.first chunk answer]) (.error e)
          d'.transfer.phase := by
        rw [hfailed]
        exact .failed hfetching hfits hfault
      exact .inl ⟨e, d', _, rfl, by rw [hwritten, htold, List.append_assoc], hmoved⟩

variable [RangeSource C]

/-- **Whatever the source and the flash device answer, a chunk is moved in this way**; the buffer keeps its size. -/
theorem moving_of_fetchAndWrite (u : UpdateSettings) (url : ImageUrl) (total index : UInt32) {range : ByteRange}
    {buffer : Bytes} (hroom : range.size.toNat ≤ buffer.length) (d : Device C F) :
    (∃ e d' calls, fetchAndWrite u url total index range buffer d = .error e d' ∧ d'.calls = d.calls ++ calls ∧
        Moving u url total index range d.transfer.phase calls (.error e) d'.transfer.phase) ∨
      ∃ buffer' d' calls, fetchAndWrite u url total index range buffer d = .ok buffer' d' ∧
        buffer'.length = buffer.length ∧ d'.calls = d.calls ++ calls ∧
        Moving u url total index range d.transfer.phase calls (.ok ()) d'.transfer.phase := by
  have htake : (buffer.take range.size.toNat).length = range.size.toNat := by
    rw [List.length_take]
    omega
  have hkeep : Keeps (fun m : Device C F => m.transfer = d.transfer)
      (fetchChunk u url range 0 (buffer.take range.size.toNat) u.maxRetries.toNat) :=
    keeps_fetchChunk (fun _ _ _ _ hm => hm) _ _ _ _ _ _
  obtain ⟨calls, hcalls, hfetching⟩ := fetching_of_fetchChunk u url range u.maxRetries.toNat 0 d htake
  rw [fetchAndWrite_of_room hroom]
  rcases hfetch : fetchChunk u url range 0 (buffer.take range.size.toNat) u.maxRetries.toNat d with
    ⟨chunk, m⟩ | ⟨e, m⟩
  · rw [Task.after_of_ok hfetch] at hcalls
    rw [Task.result_of_ok hfetch] at hfetching
    have hm : m.transfer = d.transfer := hkeep.of_ok hfetch rfl
    have hlength : (chunk ++ buffer.drop range.size.toNat).length = buffer.length := by
      rw [List.length_append, List.length_drop, hfetching.length]
      omega
    obtain ⟨m₁, hreport, -⟩ := report_eq_ok u total index range m
    rw [Task.bind_of_ok hfetch, Task.bind_of_ok hreport, ← hm]
    rcases moving_of_received total index hfetching hcalls with ⟨e, d', calls', hwrite, hmade, hmoving⟩ |
      ⟨n, d', calls', hwrite, hmade, hmoving⟩
    · rw [Task.bind_of_ok hreport] at hwrite
      exact .inl ⟨e, d', calls', Task.bind_of_error (Task.discard_of_error hwrite), hmade, hmoving⟩
    · rw [Task.bind_of_ok hreport] at hwrite
      refine .inr ⟨chunk ++ buffer.drop range.size.toNat, d', calls', ?_, hlength, hmade, hmoving⟩
      exact Task.bind_of_ok (Task.discard_eq_ok.2 ⟨n, hwrite⟩)
  · have hm : m.transfer = d.transfer := hkeep.of_error hfetch rfl
    rw [Task.after_of_error hfetch] at hcalls
    rw [Task.result_of_error hfetch] at hfetching
    rw [Task.bind_of_error hfetch, ← hm]
    exact .inl ⟨e, m, calls, rfl, hcalls, .unfetched hfetching⟩

end Moving

/-! ## A plan -/

/-- The calls that move what a plan still hands out, how they end, and the phase of the transfer before and after. -/
inductive Course (u : UpdateSettings) (url : ImageUrl) :
    (plan : ChunkPlan) → (index : UInt32) → Phase → List Call → Except UpdateError Unit → Phase → Prop
  | done {plan index phase} (covered : plan.step? = none) : Course u url plan index phase [] (.ok ()) phase
  | broken {plan rest index range phase calls e phase'} (step : plan.step? = some (range, rest))
      (moving : Moving u url plan.total index range phase calls (.error e) phase') :
      Course u url plan index phase calls (.error e) phase'
  | next {plan rest index range phase calls between calls' outcome phase'} (step : plan.step? = some (range, rest))
      (moving : Moving u url plan.total index range phase calls (.ok ()) between)
      (course : Course u url rest (index + 1) between calls' outcome phase') :
      Course u url plan index phase (calls ++ calls') outcome phase'

section Course

variable {C F : Type} [RangeSource C] [FlashDevice F]

/-- **A plan is run in this way**, if the buffer has room for its chunks. -/
theorem course_of_runPlan (u : UpdateSettings) (url : ImageUrl) (plan : ChunkPlan) :
    ∀ (index : UInt32) {buffer : Bytes} (d : Device C F), min plan.total.toNat plan.chunk.toNat ≤ buffer.length →
      ∃ calls, ((runPlan u url plan index buffer).after d).calls = d.calls ++ calls ∧
        Course u url plan index d.transfer.phase calls ((runPlan u url plan index buffer).result d)
          ((runPlan u url plan index buffer).after d).transfer.phase := by
  induction plan using ChunkPlan.ranges.induct with
  | case1 plan hstep =>
    intro index buffer d _
    rw [runPlan_of_none _ _ hstep]
    exact ⟨[], (List.append_nil _).symm, .done hstep⟩
  | case2 plan range rest hstep ih =>
    intro index buffer d hbuffer
    have step := ChunkPlan.step_of_step? hstep
    have hroom : range.size.toNat ≤ buffer.length := by
      have := step.size
      omega
    rw [runPlan_of_some _ _ hstep]
    rcases moving_of_fetchAndWrite u url plan.total index hroom d with ⟨e, m, calls, hrun, hcalls, hmoving⟩ |
      ⟨buffer', m, calls, hrun, hlength, hcalls, hmoving⟩
    · have hend : (fetchAndWrite u url plan.total index range buffer >>= runPlan u url rest (index + 1)) d =
          .error e m := Task.bind_of_error hrun
      rw [Task.after_of_error hend, Task.result_of_error hend]
      exact ⟨calls, hcalls, .broken hstep hmoving⟩
    · have hend : (fetchAndWrite u url plan.total index range buffer >>= runPlan u url rest (index + 1)) d =
          runPlan u url rest (index + 1) buffer' m := Task.bind_of_ok hrun
      rw [← step.total, ← step.chunk, ← hlength] at hbuffer
      obtain ⟨calls', hcalls', hcourse⟩ := ih (index + 1) m hbuffer
      rw [Task.after_congr hend, Task.result_congr hend]
      exact ⟨calls ++ calls', by rw [hcalls', hcalls, List.append_assoc], .next hstep hmoving hcourse⟩

/-- **So is the plan of an image**: the calls that a run makes are the whole of what it adds to the journal. -/
theorem course_of_run {u : UpdateSettings} (hchunk : u.chunkSize ≠ 0) (url : ImageUrl) (total : UInt32)
    (d : Device C F) :
    ((run u url total).after d).calls = d.calls ++ (run u url total).made d ∧
      Course u url (.ofSize total u.chunkSize) 0 d.transfer.phase ((run u url total).made d)
        ((run u url total).result d) ((run u url total).after d).transfer.phase := by
  have hroom : min total.toNat (ChunkPlan.ofSize total u.chunkSize).chunk.toNat ≤
      (List.replicate (min u.chunkSize.toNat total.toNat) (0 : UInt8)).length := by
    simp only [ChunkPlan.ofSize, if_neg hchunk, List.length_replicate]
    omega
  obtain ⟨calls, hcalls, hcourse⟩ := course_of_runPlan u url (.ofSize total u.chunkSize) 0 d hroom
  have hmade : (run u url total).made d = calls := Task.made_of_calls hcalls
  rw [hmade]
  exact ⟨hcalls, hcourse⟩

end Course

/-! ## What is asked for -/

/-- Going through `ranges` from the front, each is asked for once and then up to `limit` times more in a row. -/
inductive Requests (limit : Nat) : (ranges asked : List ByteRange) → Prop
  | stop (ranges : List ByteRange) : Requests limit ranges []
  | ask {range ranges asked} (again : Nat) (bound : again ≤ limit) (rest : Requests limit ranges asked) :
      Requests limit (range :: ranges) (List.replicate (again + 1) range ++ asked)

namespace Requests

variable {limit : Nat} {ranges asked : List ByteRange}

theorem mem (h : Requests limit ranges asked) {range : ByteRange} (hmem : range ∈ asked) : range ∈ ranges := by
  induction h with
  | stop ranges => cases hmem
  | ask again bound rest ih =>
    rcases List.mem_append.1 hmem with hmem | hmem
    · rw [List.eq_of_mem_replicate hmem]
      exact List.mem_cons_self
    · exact List.mem_cons_of_mem _ (ih hmem)

theorem length_le (h : Requests limit ranges asked) : asked.length ≤ ranges.length * (limit + 1) := by
  induction h with
  | stop ranges => exact Nat.zero_le _
  | ask again bound rest ih =>
    rw [List.length_append, List.length_replicate, List.length_cons, Nat.succ_mul]
    omega

theorem count_le (h : Requests limit ranges asked) (hnodup : ranges.Nodup) (range : ByteRange) :
    asked.count range ≤ limit + 1 := by
  induction h with
  | stop ranges => exact Nat.zero_le _
  | @ask first ranges asked again bound rest ih =>
    obtain ⟨hfirst, hnodup⟩ := List.nodup_cons.1 hnodup
    rw [List.count_append, List.count_replicate]
    by_cases heq : first = range
    · subst heq
      have hnone : asked.count first = 0 := List.count_eq_zero.2 fun hmem => hfirst (rest.mem hmem)
      rw [if_pos (beq_self_eq_true _), hnone]
      omega
    · rw [if_neg (by simpa using heq), Nat.zero_add]
      exact ih hnodup

theorem eraseDups (h : Requests limit ranges asked) (hnodup : ranges.Nodup) : asked.eraseDups <+: ranges := by
  induction h with
  | stop ranges => exact List.nil_prefix
  | @ask first ranges asked again bound rest ih =>
    obtain ⟨hfirst, hnodup⟩ := List.nodup_cons.1 hnodup
    have hother : (List.replicate again first ++ asked).filter (fun range => !range == first) = asked := by
      rw [List.filter_append, List.filter_replicate, if_neg (by simp), List.nil_append, List.filter_eq_self]
      intro range hmem
      have hne : range ≠ first := fun heq => hfirst (heq ▸ rest.mem hmem)
      simpa using hne
    rw [List.replicate_succ, List.cons_append, List.eraseDups_cons, hother, List.prefix_cons_inj]
    exact ih hnodup

theorem adjacent (h : Requests limit ranges asked) (hnodup : ranges.Nodup) :
    ∀ {before after : List ByteRange} {range : ByteRange}, asked = before ++ range :: after → range ∈ before →
      before.getLast? = some range := by
  induction h with
  | stop ranges =>
    intro before after range hsplit
    simp at hsplit
  | @ask first ranges asked again bound rest ih =>
    intro before after range hsplit hmem
    obtain ⟨hfirst, hnodup⟩ := List.nodup_cons.1 hnodup
    rcases split_append hsplit with ⟨tail, hblock, -⟩ | ⟨head, rfl, hasked⟩
    · have hsame : ∀ other ∈ before ++ range :: tail, other = first := fun other hother =>
        List.eq_of_mem_replicate (hblock ▸ hother)
      have hlast : before.getLast (List.ne_nil_of_mem hmem) = range :=
        (hsame _ (List.mem_append_left _ (List.getLast_mem _))).trans (hsame range (by simp)).symm
      rw [List.getLast?_eq_some_getLast (List.ne_nil_of_mem hmem), hlast]
    · have hrange : range ∈ ranges := rest.mem (hasked ▸ by simp)
      have hhead : range ∈ head := (List.mem_append.1 hmem).resolve_left fun hmem =>
        hfirst (List.eq_of_mem_replicate hmem ▸ hrange)
      rw [List.getLast?_append, ih hnodup hasked hhead]
      rfl

end Requests

theorem announced_eq (u : UpdateSettings) (total index : UInt32) (range : ByteRange) :
    ∀ call ∈ announced u total index range, ∃ event, call = .tell event := by
  unfold announced
  by_cases htells : tellsProgress u index = true
  · rw [if_pos htells]
    intro call hcall
    exact ⟨_, List.mem_singleton.1 hcall⟩
  · rw [if_neg htells]
    intro call hcall
    cases hcall

theorem filterMap_announced {α : Type} {f : Call → Option α} (hf : ∀ event, f (.tell event) = none)
    (u : UpdateSettings) (total index : UInt32) (range : ByteRange) :
    (announced u total index range).filterMap f = [] := by
  rw [List.filterMap_eq_nil_iff]
  intro call hcall
  obtain ⟨event, rfl⟩ := announced_eq u total index range call hcall
  exact hf event

theorem Fetching.asked {retries : Nat} {attempts : UInt32} {calls : List Call} {outcome : Except UpdateError Bytes}
    (h : Fetching u url range retries attempts calls outcome) :
    ∃ again ≤ retries, calls.filterMap Call.asked? = List.replicate (again + 1) range := by
  induction h with
  | received _ _ => exact ⟨0, Nat.zero_le _, rfl⟩
  | refused _ => exact ⟨0, Nat.zero_le _, rfl⟩
  | exhausted _ => exact ⟨0, Nat.zero_le _, rfl⟩
  | again _ _ ih =>
    obtain ⟨again, hle, hasked⟩ := ih
    exact ⟨again + 1, Nat.succ_le_succ hle, by rw [List.replicate_succ, ← hasked]; rfl⟩

theorem Moving.split {total index : UInt32} {phase phase' : Phase} {calls : List Call}
    {outcome : Except UpdateError Unit} (h : Moving u url total index range phase calls outcome phase') :
    ∃ fetched rest answer, calls = fetched ++ rest ∧ Fetching u url range u.maxRetries.toNat 0 fetched answer ∧
      ∀ call ∈ rest, call.isFollowUp = true := by
  have htold : ∀ call ∈ announced u total index range, call.isFollowUp = true := fun call hcall => by
    obtain ⟨event, rfl⟩ := announced_eq u total index range call hcall
    rfl
  cases h with
  | unfetched fetching => exact ⟨_, [], _, (List.append_nil _).symm, fetching, nofun⟩
  | unfit fetching misfit => exact ⟨_, _, _, rfl, fetching, htold⟩
  | failed fetching fits fault =>
    exact ⟨_, _, _, List.append_assoc _ _ _, fetching,
      List.forall_mem_append.2 ⟨htold, List.forall_mem_singleton.2 rfl⟩⟩
  | moved fetching fits =>
    exact ⟨_, _, _, List.append_assoc _ _ _, fetching,
      List.forall_mem_append.2 ⟨htold, List.forall_mem_singleton.2 rfl⟩⟩

theorem asked_of_followUps {calls : List Call} (h : ∀ call ∈ calls, call.isFollowUp = true) :
    calls.filterMap Call.asked? = [] :=
  List.filterMap_eq_nil_iff.2 fun call hcall => Call.asked?_of_isFollowUp (h call hcall)

theorem Moving.asked {total index : UInt32} {phase phase' : Phase} {calls : List Call}
    {outcome : Except UpdateError Unit} (h : Moving u url total index range phase calls outcome phase') :
    ∃ again ≤ u.maxRetries.toNat, calls.filterMap Call.asked? = List.replicate (again + 1) range := by
  obtain ⟨fetched, rest, answer, rfl, fetching, hrest⟩ := h.split
  rw [List.filterMap_append, asked_of_followUps hrest, List.append_nil]
  exact fetching.asked

/-- **The ranges of a plan are asked for in order**, each within the retries that the settings allow. -/
theorem Course.requests {plan : ChunkPlan} {index : UInt32} {phase phase' : Phase} {calls : List Call}
    {outcome : Except UpdateError Unit} (h : Course u url plan index phase calls outcome phase') :
    Requests u.maxRetries.toNat plan.ranges (calls.filterMap Call.asked?) := by
  induction h with
  | done covered => exact .stop _
  | broken step moving =>
    obtain ⟨again, hle, hasked⟩ := moving.asked
    rw [ChunkPlan.ranges_of_some step, hasked, ← List.append_nil (List.replicate _ _)]
    exact .ask again hle (.stop _)
  | next step moving course ih =>
    obtain ⟨again, hle, hasked⟩ := moving.asked
    rw [ChunkPlan.ranges_of_some step, List.filterMap_append, hasked]
    exact .ask again hle ih

/-! ## How a run fails -/

section Failure

variable {call : Call} {calls after : List Call} {e : UpdateError}

theorem Fetching.final {retries : Nat} {attempts : UInt32} {outcome : Except UpdateError Bytes}
    (h : Fetching u url range retries attempts calls outcome)
    (hsuffix : call :: after <:+ calls) (hfails : call.Fails e) : after = [] ∧ outcome = .error e := by
  induction h with
  | received accepted size =>
    obtain ⟨rfl, rfl⟩ := suffix_singleton hsuffix
    exact absurd hfails (by simp [Call.Fails, accepted])
  | refused refusal =>
    obtain ⟨rfl, rfl⟩ := suffix_singleton hsuffix
    exact ⟨rfl, congrArg Except.error (Option.some.inj (refusal.symm.trans hfails))⟩
  | exhausted interrupted =>
    obtain ⟨rfl, rfl⟩ := suffix_singleton hsuffix
    exact absurd hfails (by simp [Call.Fails, ByteRange.refusal?_of_retryable interrupted])
  | again interrupted rest ih =>
    simp only [List.suffix_cons_iff, List.cons.injEq] at hsuffix
    rcases hsuffix with ⟨rfl, -⟩ | ⟨rfl, -⟩ | ⟨rfl, -⟩ | ⟨rfl, -⟩ | hsuffix
    · exact absurd hfails (by simp [Call.Fails, ByteRange.refusal?_of_retryable interrupted])
    · cases hfails
    · cases hfails
    · cases hfails
    · exact ih hsuffix

theorem Fetching.not_fails {retries : Nat} {attempts : UInt32} {chunk : Bytes}
    (h : Fetching u url range retries attempts calls (.ok chunk)) : ∀ call ∈ calls, ¬ call.Fails e := by
  intro call hcall hfails
  obtain ⟨front, after, rfl⟩ := List.append_of_mem hcall
  cases (h.final (List.suffix_append _ _) hfails).2

theorem Fetching.not_fails_announced {chunk : Bytes}
    (h : Fetching u url range u.maxRetries.toNat 0 calls (.ok chunk)) (total index : UInt32) :
    ∀ call ∈ calls ++ announced u total index range, ¬ call.Fails e := by
  refine List.forall_mem_append.2 ⟨h.not_fails, fun call hcall hfails => ?_⟩
  obtain ⟨event, rfl⟩ := announced_eq u total index range call hcall
  exact hfails

theorem Moving.final {total index : UInt32} {phase phase' : Phase} {outcome : Except UpdateError Unit}
    (h : Moving u url total index range phase calls outcome phase') (hsuffix : call :: after <:+ calls)
    (hfails : call.Fails e) : after = [] ∧ outcome = .error e := by
  cases h with
  | unfetched fetching =>
    obtain ⟨hafter, houtcome⟩ := fetching.final hsuffix hfails
    cases houtcome
    exact ⟨hafter, rfl⟩
  | unfit fetching misfit =>
    exact absurd hfails (fetching.not_fails_announced total index call (hsuffix.subset List.mem_cons_self))
  | failed fetching fits fault =>
    rcases suffix_append hsuffix with ⟨tail, -, hfront⟩ | hlast
    · exact absurd hfails (fetching.not_fails_announced total index call (hfront.subset List.mem_cons_self))
    · obtain ⟨rfl, rfl⟩ := suffix_singleton hlast
      exact ⟨rfl, congrArg Except.error (Option.some.inj (fault.symm.trans hfails))⟩
  | moved fetching fits =>
    rcases suffix_append hsuffix with ⟨tail, -, hfront⟩ | hlast
    · exact absurd hfails (fetching.not_fails_announced total index call (hfront.subset List.mem_cons_self))
    · obtain ⟨rfl, -⟩ := suffix_singleton hlast
      exact absurd hfails (by simp [Call.Fails, Transfer.fault?])

/-- **An answer that fails a run is its last**, and it is what the run fails with. -/
theorem Course.final {plan : ChunkPlan} {index : UInt32} {phase phase' : Phase} {outcome : Except UpdateError Unit}
    (h : Course u url plan index phase calls outcome phase') (hsuffix : call :: after <:+ calls)
    (hfails : call.Fails e) : after = [] ∧ outcome = .error e := by
  induction h with
  | done covered => simp at hsuffix
  | broken step moving => exact moving.final hsuffix hfails
  | next step moving course ih =>
    rcases suffix_append hsuffix with ⟨tail, -, htail⟩ | htail
    · cases (moving.final htail hfails).2
    · exact ih htail

theorem Fetching.raises {retries : Nat} {attempts : UInt32}
    (h : Fetching u url range retries attempts calls (.error e)) :
    ∃ front call, calls = front ++ [call] ∧ call.Raises e := by
  generalize houtcome : Except.error e = outcome at h
  induction h with
  | received _ _ => cases houtcome
  | refused refusal =>
    cases houtcome
    exact ⟨[], _, rfl, .inl refusal⟩
  | exhausted interrupted =>
    cases houtcome
    exact ⟨[], _, rfl, .inr ⟨_, _, _, _, _, rfl, interrupted, rfl⟩⟩
  | again _ _ ih =>
    obtain ⟨front, call, hcalls, hraises⟩ := ih houtcome
    exact ⟨_ :: _ :: _ :: _ :: front, call, by rw [hcalls]; rfl, hraises⟩

theorem Moving.raises {total index : UInt32} {phase phase' : Phase}
    (h : Moving u url total index range phase calls (.error e) phase')
    (hfits : ∀ chunk : Bytes, chunk.length = range.size.toNat → Transfer.misfit? phase range.first chunk ≠ some e) :
    ∃ front call, calls = front ++ [call] ∧ call.Raises e := by
  cases h with
  | unfetched fetching => exact fetching.raises
  | unfit fetching misfit => exact absurd misfit (hfits _ fetching.length)
  | failed fetching fits fault => exact ⟨_, _, rfl, .inl fault⟩

/-- **A run that fails ends with the call that failed it**, unless a chunk did not fit the transfer. -/
theorem Course.raises {plan : ChunkPlan} {index : UInt32} {phase phase' : Phase}
    (h : Course u url plan index phase calls (.error e) phase')
    (hfits : ∀ phase first chunk, Transfer.misfit? phase first chunk ≠ some e) :
    ∃ front call, calls = front ++ [call] ∧ call.Raises e := by
  generalize houtcome : Except.error e = outcome at h
  induction h with
  | done covered => cases houtcome
  | broken step moving =>
    cases houtcome
    exact moving.raises fun chunk _ => hfits _ _ chunk
  | @next plan rest index range phase calls between calls' outcome phase' step moving course ih =>
    obtain ⟨front, call, hcalls, hraises⟩ := ih houtcome
    exact ⟨calls ++ front, call, by rw [hcalls, List.append_assoc], hraises⟩

end Failure

theorem host_fits : "host".utf8ByteSize ≤ 128 := by decide

theorem resource_fits : "/image".utf8ByteSize ≤ 2048 := by decide

def awaiting (source : RehearsedSource) : Device RehearsedSource FaultyPartition where
  source
  flash := .sound { file := some { size := 3 } }
  transfer := { phase := .receiving 3 0, file := some { path := .empty, size := 3, signature := none } }
  uplink := { topic := .empty }

end Download
end Firmware
