import Firmware.Proofs.Course
/-!
# Order — every range once, in order, and nothing else

A run goes through the ranges of its plan.  It asks for a range until it is answered, writes what the answer left in the
buffer, and only then turns to the next range; what ends it is its last call.  `Course` says which calls these are, so
each part of `run_in_order` is an induction over it.
-/
namespace Firmware

/-- What a run may call: it asks for ranges, writes their octets, opens sessions, pauses and tells. -/
def Call.BelongsTo (url : ImageUrl) (ranges : List ByteRange) : Call → Prop
  | .fetch resource range _ _ => resource = url.resource.text ∧ range ∈ ranges
  | .write offset block _ => ∃ range ∈ ranges, offset = range.first ∧ block.length = range.size.toNat
  | .connect .. | .disconnect _ | .wait _ | .tell _ => True
  | .create .. | .close .. | .abort _ | .activate _ | .setState .. | .acknowledge .. | .drive .. => False

theorem Call.BelongsTo.mono {url : ImageUrl} {ranges ranges' : List ByteRange} {call : Call}
    (h : call.BelongsTo url ranges) (hsub : ranges ⊆ ranges') : call.BelongsTo url ranges' := by
  cases call with
  | fetch resource range answer buffer => exact ⟨h.1, hsub h.2⟩
  | write offset block answer =>
    obtain ⟨range, hmem, hwrite⟩ := h
    exact ⟨range, hsub hmem, hwrite⟩
  | connect | disconnect | wait | tell => trivial
  | create | close | abort | activate | setState | acknowledge | drive => exact h

/-- Where a write starts, and how many octets it has. -/
def Call.written? : Call → Option (UInt32 × Nat)
  | .write offset block _ => some (offset, block.length)
  | _ => none

/-- The same, if the flash device took the write whole. -/
def Call.stored? : Call → Option (UInt32 × Nat)
  | .write offset block (.ok taken) => if taken = block.length then some (offset, block.length) else none
  | _ => none

theorem Call.written?_of_isOutward {call : Call} (h : call.isOutward = true) : call.written? = none := by
  cases call <;> first | rfl | cases h

theorem Call.stored?_of_isOutward {call : Call} (h : call.isOutward = true) : call.stored? = none := by
  cases call <;> first | rfl | cases h

def ByteRange.extent (range : ByteRange) : UInt32 × Nat := (range.first, range.size.toNat)

theorem RangeAnswer.status_lt {answer : RangeAnswer} (h : answer.isFailure = false) : answer.status < 400 := by
  unfold isFailure at h
  exact UInt16.not_le.1 (of_decide_eq_false h)

namespace Download

variable {u : UpdateSettings} {url : ImageUrl} {range : ByteRange}

/-! ## While a chunk is fetched -/

section Fetching

variable {retries : Nat} {attempts : UInt32} {calls : List Call}

theorem Fetching.belongs {outcome : Except UpdateError Bytes}
    (h : Fetching u url range retries attempts calls outcome) : ∀ call ∈ calls, call.BelongsTo url [range] := by
  induction h with
  | received _ _ => exact List.forall_mem_singleton.2 ⟨rfl, List.mem_singleton_self _⟩
  | refused _ => exact List.forall_mem_singleton.2 ⟨rfl, List.mem_singleton_self _⟩
  | exhausted _ => exact List.forall_mem_singleton.2 ⟨rfl, List.mem_singleton_self _⟩
  | again _ _ ih =>
    simp only [List.forall_mem_cons]
    exact ⟨⟨rfl, List.mem_singleton_self _⟩, trivial, trivial, trivial, ih⟩

theorem Fetching.outward {outcome : Except UpdateError Bytes}
    (h : Fetching u url range retries attempts calls outcome) : ∀ call ∈ calls, call.isOutward = true := by
  induction h with
  | received _ _ => exact List.forall_mem_singleton.2 rfl
  | refused _ => exact List.forall_mem_singleton.2 rfl
  | exhausted _ => exact List.forall_mem_singleton.2 rfl
  | again _ _ ih =>
    simp only [List.forall_mem_cons]
    exact ⟨rfl, rfl, rfl, rfl, ih⟩

theorem Fetching.response {chunk : Bytes} (h : Fetching u url range retries attempts calls (.ok chunk)) :
    ∃ front response, calls = front ++ [.fetch url.resource.text range (.ok response) chunk] ∧
      range.refusal? (.ok response) = none := by
  generalize houtcome : Except.ok chunk = outcome at h
  induction h with
  | received accepted size =>
    cases houtcome
    exact ⟨[], _, rfl, accepted⟩
  | refused _ => cases houtcome
  | exhausted _ => cases houtcome
  | again _ _ ih =>
    obtain ⟨front, response, hcalls, haccepted⟩ := ih houtcome
    exact ⟨_ :: _ :: _ :: _ :: front, response, by rw [hcalls]; rfl, haccepted⟩

end Fetching

/-! ## While a chunk is moved -/

section Moving

variable {total index : UInt32} {phase phase' : Phase} {calls : List Call} {outcome : Except UpdateError Unit}

theorem announced_belongs : ∀ call ∈ announced u total index range, call.BelongsTo url [range] := by
  intro call hcall
  obtain ⟨event, rfl⟩ := announced_eq u total index range call hcall
  trivial

theorem announced_outward : ∀ call ∈ announced u total index range, call.isOutward = true := by
  intro call hcall
  obtain ⟨event, rfl⟩ := announced_eq u total index range call hcall
  rfl

theorem Moving.belongs (h : Moving u url total index range phase calls outcome phase') :
    ∀ call ∈ calls, call.BelongsTo url [range] := by
  cases h with
  | unfetched fetching => exact fetching.belongs
  | unfit fetching misfit => exact List.forall_mem_append.2 ⟨fetching.belongs, announced_belongs⟩
  | failed fetching fits fault =>
    refine List.forall_mem_append.2 ⟨List.forall_mem_append.2 ⟨fetching.belongs, announced_belongs⟩, ?_⟩
    exact List.forall_mem_singleton.2 ⟨range, List.mem_singleton_self _, rfl, fetching.length⟩
  | moved fetching fits =>
    refine List.forall_mem_append.2 ⟨List.forall_mem_append.2 ⟨fetching.belongs, announced_belongs⟩, ?_⟩
    exact List.forall_mem_singleton.2 ⟨range, List.mem_singleton_self _, rfl, fetching.length⟩

/-- **A chunk is written at most once, as the last call**, and taken whole exactly if it was moved. -/
theorem Moving.shape (h : Moving u url total index range phase calls outcome phase') :
    (outcome ≠ .ok () ∧ ∀ call ∈ calls, call.isOutward = true) ∨
      ∃ fetched chunk told answer, calls = fetched ++ told ++ [.write range.first chunk answer] ∧
        Fetching u url range u.maxRetries.toNat 0 fetched (.ok chunk) ∧
        (∀ call ∈ told, ∃ event, call = .tell event) ∧ (∀ call ∈ fetched ++ told, call.isOutward = true) ∧
        (outcome = .ok () ↔ answer = .ok chunk.length) := by
  cases h with
  | unfetched fetching => exact .inl ⟨nofun, fetching.outward⟩
  | unfit fetching misfit =>
    exact .inl ⟨nofun, List.forall_mem_append.2 ⟨fetching.outward, announced_outward⟩⟩
  | failed fetching fits fault =>
    refine .inr ⟨_, _, _, _, rfl, fetching, announced_eq u total index range,
      List.forall_mem_append.2 ⟨fetching.outward, announced_outward⟩, nofun, fun hwhole => ?_⟩
    subst hwhole
    simp [Transfer.fault?] at fault
  | moved fetching fits =>
    exact .inr ⟨_, _, _, _, rfl, fetching, announced_eq u total index range,
      List.forall_mem_append.2 ⟨fetching.outward, announced_outward⟩, fun _ => rfl, fun _ => rfl⟩

theorem filterMap_of_outward {α : Type} {f : Call → Option α} (hf : ∀ {call}, call.isOutward = true → f call = none)
    (h : ∀ call ∈ calls, call.isOutward = true) : calls.filterMap f = [] :=
  List.filterMap_eq_nil_iff.2 fun call hcall => hf (h call hcall)

theorem filterMap_snoc_of_outward {α : Type} {f : Call → Option α}
    (hf : ∀ {call}, call.isOutward = true → f call = none) (h : ∀ call ∈ calls, call.isOutward = true) (call : Call) :
    (calls ++ [call]).filterMap f = (f call).toList := by
  rw [List.filterMap_append, filterMap_of_outward hf h, List.nil_append, List.filterMap_cons]
  cases f call <;> rfl

theorem Moving.stored (h : Moving u url total index range phase calls (.ok ()) phase') :
    calls.filterMap Call.written? = [range.extent] ∧ calls.filterMap Call.stored? = [range.extent] := by
  rcases h.shape with ⟨hfails, -⟩ | ⟨fetched, chunk, told, answer, rfl, fetching, -, houtward, hwhole⟩
  · exact absurd rfl hfails
  · rw [filterMap_snoc_of_outward Call.written?_of_isOutward houtward,
      filterMap_snoc_of_outward Call.stored?_of_isOutward houtward, hwhole.1 rfl, ByteRange.extent, ← fetching.length]
    simp [Call.written?, Call.stored?]

theorem Moving.not_stored {e : UpdateError} (h : Moving u url total index range phase calls (.error e) phase') :
    calls.filterMap Call.written? <+: [range.extent] ∧ calls.filterMap Call.stored? = [] := by
  rcases h.shape with ⟨-, houtward⟩ | ⟨fetched, chunk, told, answer, rfl, fetching, -, houtward, hwhole⟩
  · rw [filterMap_of_outward Call.written?_of_isOutward houtward,
      filterMap_of_outward Call.stored?_of_isOutward houtward]
    exact ⟨List.nil_prefix, rfl⟩
  · have hpartial : answer ≠ .ok chunk.length := fun hok => nomatch hwhole.2 hok
    rw [filterMap_snoc_of_outward Call.written?_of_isOutward houtward,
      filterMap_snoc_of_outward Call.stored?_of_isOutward houtward, ByteRange.extent, ← fetching.length]
    refine ⟨List.prefix_rfl, ?_⟩
    cases answer with
    | error fault => rfl
    | ok taken =>
      have htaken : taken ≠ chunk.length := fun heq => hpartial (heq ▸ rfl)
      simp [Call.stored?, htaken]

theorem Moving.received (h : Moving u url total index range phase calls outcome phase') {before after : List Call}
    {offset : UInt32} {block : Bytes} {answer : Except FlashError Nat}
    (hsplit : calls = before ++ .write offset block answer :: after) :
    offset = range.first ∧ block.length = range.size.toNat ∧
      ∃ front response told, before = front ++ .fetch url.resource.text range (.ok response) block :: told ∧
        range.refusal? (.ok response) = none ∧ ∀ call ∈ told, ∃ event, call = .tell event := by
  rcases h.shape with ⟨-, houtward⟩ | ⟨fetched, chunk, told, answer', rfl, fetching, htold, houtward, -⟩
  · have hwrite := houtward (.write offset block answer) (hsplit ▸ by simp)
    cases hwrite
  · rcases split_append hsplit with ⟨tail, hfront, -⟩ | ⟨head, rfl, hlast⟩
    · rw [hfront] at houtward
      have hwrite := houtward (.write offset block answer) (by simp)
      cases hwrite
    · cases head with
      | cons _ _ => simp at hlast
      | nil =>
        obtain ⟨hwrite, -⟩ := List.cons.inj hlast
        obtain ⟨rfl, rfl, -⟩ := Call.write.inj hwrite
        obtain ⟨front, response, rfl, haccepted⟩ := fetching.response
        refine ⟨rfl, fetching.length, front, response, told, ?_, haccepted, htold⟩
        simp only [List.append_nil, List.append_assoc, List.cons_append, List.nil_append]

end Moving

/-! ## While a plan is run -/

section Course

variable {plan : ChunkPlan} {index : UInt32} {phase phase' : Phase} {calls : List Call}
  {outcome : Except UpdateError Unit}

theorem Course.belongs (h : Course u url plan index phase calls outcome phase') :
    ∀ call ∈ calls, call.BelongsTo url plan.ranges := by
  induction h with
  | done covered => nofun
  | broken step moving =>
    intro call hcall
    rw [ChunkPlan.ranges_of_some step]
    exact (moving.belongs call hcall).mono (by simp)
  | next step moving course ih =>
    intro call hcall
    rw [ChunkPlan.ranges_of_some step]
    rcases List.mem_append.1 hcall with hcall | hcall
    · exact (moving.belongs call hcall).mono (by simp)
    · exact (ih call hcall).mono (by simp)

theorem Course.written (h : Course u url plan index phase calls outcome phase') :
    calls.filterMap Call.written? <+: plan.ranges.map ByteRange.extent := by
  induction h with
  | done covered => exact List.nil_prefix
  | broken step moving =>
    rw [ChunkPlan.ranges_of_some step, List.map_cons]
    exact moving.not_stored.1.trans (List.prefix_append [_] _)
  | next step moving course ih =>
    rw [ChunkPlan.ranges_of_some step, List.map_cons, List.filterMap_append, moving.stored.1]
    exact (List.prefix_cons_inj _).2 ih

/-- **A run ends well exactly if every range was stored.** -/
theorem Course.stored (h : Course u url plan index phase calls outcome phase') :
    outcome = .ok () ↔ calls.filterMap Call.stored? = plan.ranges.map ByteRange.extent := by
  induction h with
  | done covered => simp [ChunkPlan.ranges_of_none covered]
  | broken step moving => simp [ChunkPlan.ranges_of_some step, moving.not_stored.2]
  | next step moving course ih =>
    rw [ChunkPlan.ranges_of_some step, List.map_cons, List.filterMap_append, moving.stored.2, ih]
    simp

theorem Course.received (h : Course u url plan index phase calls outcome phase') :
    ∀ {before after : List Call} {offset : UInt32} {block : Bytes} {answer : Except FlashError Nat},
      calls = before ++ .write offset block answer :: after →
      ∃ range ∈ plan.ranges, offset = range.first ∧ block.length = range.size.toNat ∧
        ∃ front response told, before = front ++ .fetch url.resource.text range (.ok response) block :: told ∧
          range.refusal? (.ok response) = none ∧ ∀ call ∈ told, ∃ event, call = .tell event := by
  induction h with
  | done covered =>
    intro before after offset block answer hsplit
    simp at hsplit
  | @broken plan rest index range phase calls e phase' step moving =>
    intro before after offset block answer hsplit
    have hmem : range ∈ plan.ranges := by simp [ChunkPlan.ranges_of_some step]
    exact ⟨range, hmem, moving.received hsplit⟩
  | @next plan rest index range phase calls between calls' outcome phase' step moving course ih =>
    intro before after offset block answer hsplit
    rcases split_append hsplit with ⟨tail, hcalls, -⟩ | ⟨head, rfl, hcalls⟩
    · have hmem : range ∈ plan.ranges := by simp [ChunkPlan.ranges_of_some step]
      exact ⟨range, hmem, moving.received hcalls⟩
    · obtain ⟨later, hmem, hfirst, hlength, front, response, told, rfl, hrest⟩ := ih hcalls
      refine ⟨later, ?_, hfirst, hlength, calls ++ front, response, told, ?_, hrest⟩
      · rw [ChunkPlan.ranges_of_some step]
        exact List.mem_cons_of_mem _ hmem
      · rw [List.append_assoc]

end Course

/-! ## From the start of a transfer -/

theorem fits_of_step {plan rest : ChunkPlan} (step : plan.Step range rest) {chunk : Bytes}
    (hlength : chunk.length = range.size.toNat) :
    Transfer.misfit? (.receiving plan.total plan.next) range.first chunk = none := by
  have hinside := step.inside
  have hlast := step.last
  have htotal := plan.total.toNat_lt
  have hsum : (Transfer.saturatingAdd plan.next range.size).toNat = plan.next.toNat + range.size.toNat := by
    rw [Transfer.saturatingAdd, if_pos (by simp only [UInt32.size]; omega), UInt32.toNat_add,
      Nat.mod_eq_of_lt (by omega)]
  rw [step.first]
  refine Transfer.misfit?_eq_none.2 ⟨plan.total, rfl, ?_⟩
  rw [hlength, UInt32.ofNat_toNat, UInt32.lt_iff_toNat_lt, hsum]
  omega

theorem next_of_step {plan rest : ChunkPlan} (step : plan.Step range rest) : range.first + range.size = rest.next := by
  have hinside := step.inside
  have hlast := step.last
  have htotal := plan.total.toNat_lt
  rw [← UInt32.toNat_inj, UInt32.toNat_add, step.first, step.next, Nat.mod_eq_of_lt (by omega)]

/-- **A transfer that starts with the plan ends with it**, or with the call that failed. -/
theorem Course.ends {plan : ChunkPlan} {index : UInt32} {phase phase' : Phase} {calls : List Call}
    {outcome : Except UpdateError Unit} (h : Course u url plan index phase calls outcome phase') :
    phase = .receiving plan.total plan.next → plan.next ≤ plan.total →
      (outcome = .ok () → phase' = .receiving plan.total plan.total) ∧
        ∀ e, outcome = .error e → ∃ front call, calls = front ++ [call] ∧ call.Raises e := by
  induction h with
  | @done plan index phase covered =>
    intro hphase hle
    have hend : plan.next = plan.total :=
      UInt32.le_antisymm hle (UInt32.le_iff_toNat_le.2 (ChunkPlan.total_le_next_of_step? covered))
    exact ⟨fun _ => by rw [hphase, hend], nofun⟩
  | @broken plan rest index range phase calls e phase' step moving =>
    intro hphase hle
    refine ⟨nofun, fun e' he => ?_⟩
    cases he
    refine moving.raises fun chunk hlength hmisfit => ?_
    rw [hphase, fits_of_step (ChunkPlan.step_of_step? step) hlength] at hmisfit
    cases hmisfit
  | @next plan rest index range phase calls between calls' outcome phase' step moving course ih =>
    intro hphase hle
    have hstep := ChunkPlan.step_of_step? step
    have hinside := hstep.inside
    have hlast := hstep.last
    have hrest : rest.next ≤ rest.total := by
      rw [UInt32.le_iff_toNat_le, hstep.next, hstep.total]
      omega
    have hbetween : between = .receiving rest.total rest.next := by
      cases moving with
      | moved fetching fits =>
        obtain ⟨htotal, -⟩ := Phase.receiving.inj hphase
        rw [next_of_step hstep, hstep.total, htotal]
    obtain ⟨hok, herror⟩ := ih hbetween hrest
    rw [hstep.total] at hok
    refine ⟨hok, fun e he => ?_⟩
    obtain ⟨front, call, hcalls, hraises⟩ := herror e he
    exact ⟨calls ++ front, call, by rw [hcalls, List.append_assoc], hraises⟩

/-- A run that goes through `ranges` once, in order: what it calls, how it ends, and the phase of the transfer then. -/
structure InOrder (url : ImageUrl) (total : UInt32) (ranges : List ByteRange) (calls : List Call)
    (result : Except UpdateError Unit) (phase : Phase) : Prop where
  belongs : ∀ call ∈ calls, call.BelongsTo url ranges
  order : (calls.filterMap Call.asked?).eraseDups <+: ranges
  /-- A range that is asked for again was the last one asked for. -/
  repeats : ∀ before range after, calls.filterMap Call.asked? = before ++ range :: after → range ∈ before →
    before.getLast? = some range
  written : calls.filterMap Call.written? <+: ranges.map ByteRange.extent
  once : ((calls.filterMap Call.written?).map Prod.fst).Nodup
  /-- Only progress is told between a response and the write of its octets. -/
  received : ∀ before offset block answer after, calls = before ++ .write offset block answer :: after →
    ∃ range ∈ ranges, offset = range.first ∧ block.length = range.size.toNat ∧
      ∃ front response buffer told, before = front ++ .fetch url.resource.text range (.ok response) buffer :: told ∧
        (∀ call ∈ told, ∃ event, call = .tell event) ∧ response.status < 400 ∧
        response.bodySize.toNat = range.size.toNat ∧ block = buffer.take range.size.toNat
  whole : result = .ok () ↔ calls.filterMap Call.stored? = ranges.map ByteRange.extent
  full : result = .ok () → phase = .receiving total total
  raised : ∀ e, result = .error e → ∃ front call, calls = front ++ [call] ∧ call.Raises e
  final : ∀ call after e, call :: after <:+ calls → call.Fails e → after = [] ∧ result = .error e

variable {C F : Type} [RangeSource C] [FlashDevice F]

/-- **A run writes every range of its plan once, in order, and nothing else**, whatever the source and the flash device
answer. -/
theorem run_in_order {total : UInt32} {d : Device C F} (url : ImageUrl) (hchunk : u.chunkSize ≠ 0)
    (hphase : d.transfer.phase = .receiving total 0) :
    ((run u url total).after d).calls = d.calls ++ (run u url total).made d ∧
      InOrder url total (ChunkPlan.ofSize total u.chunkSize).ranges ((run u url total).made d)
        ((run u url total).result d) ((run u url total).after d).transfer.phase := by
  obtain ⟨hcalls, hcourse⟩ := course_of_run hchunk url total d
  have hnodup := ChunkPlan.ranges_nodup (.ofSize total u.chunkSize)
  have hfirsts := ChunkPlan.firsts_nodup (.ofSize total u.chunkSize)
  obtain ⟨hfull, hraised⟩ := hcourse.ends hphase (UInt32.le_iff_toNat_le.2 (Nat.zero_le _))
  refine ⟨hcalls, ?_⟩
  exact
    { belongs := hcourse.belongs
      order := hcourse.requests.eraseDups hnodup
      repeats := fun before range after hsplit hmem => hcourse.requests.adjacent hnodup hsplit hmem
      written := hcourse.written
      once := by
        have hsub := hcourse.written.sublist.map Prod.fst
        rw [List.map_map] at hsub
        exact hfirsts.sublist hsub
      received := fun before offset block answer after hsplit => by
        obtain ⟨range, hmem, hfirst, hlength, front, response, told, hbefore, haccepted, htold⟩ :=
          hcourse.received hsplit
        obtain ⟨hfailure, hsize⟩ := ByteRange.refusal?_ok_eq_none.1 haccepted
        exact ⟨range, hmem, hfirst, hlength, front, response, block, told, hbefore, htold,
          RangeAnswer.status_lt hfailure, hsize, (List.take_of_length_le (by omega)).symm⟩
      whole := hcourse.stored
      full := hfull
      raised := hraised
      final := fun _ _ _ hsuffix hfails => hcourse.final hsuffix hfails }

def interrupted : RehearsedSource := { image := ⟨#[7, 8, 9]⟩, fetches := [.fail .network], connected := true }

def interruptedRun : Task RehearsedSource FaultyPartition UpdateError Unit :=
  run { chunkSize := 2 } ⟨⟨"host", host_fits⟩, ⟨"/image", resource_fits⟩⟩ 3

theorem interrupted_in_order :
    InOrder ⟨⟨"host", by decide⟩, ⟨"/image", by decide⟩⟩ 3 [⟨0, 1⟩, ⟨2, 2⟩] (interruptedRun.made (awaiting interrupted))
      (interruptedRun.result (awaiting interrupted)) (interruptedRun.after (awaiting interrupted)).transfer.phase := by
  obtain ⟨-, horder⟩ := run_in_order (u := { chunkSize := 2 }) (d := awaiting interrupted)
    ⟨⟨"host", by decide⟩, ⟨"/image", by decide⟩⟩ (by decide) rfl
  have hranges : (ChunkPlan.ofSize 3 2).ranges = [⟨0, 1⟩, ⟨2, 2⟩] := by
    rw [ChunkPlan.ranges_ofSize]
    decide
  rw [← hranges]
  exact horder

end Download
end Firmware
