import Firmware.Proofs.Course
import Firmware.Proofs.Settings
/-!
# Retry — how often a range is asked for, and what is done in between

Each range has its own retries.  Between two requests for it stand a pause, the end of the broken session and a new one,
and these stand nowhere else.  A run gives up on a range exactly when its first requests, one more than the retries, all
broke off; any other failure ends it at once.
-/
namespace Firmware

def Call.replacesSession : Call → Bool
  | .wait _ | .disconnect _ | .connect .. => true
  | .fetch .. | .create .. | .write .. | .close .. | .abort _ | .activate _ | .setState .. | .acknowledge .. | .drive ..
  | .tell _ => false

theorem Call.replacesSession_of_isFollowUp {call : Call} (h : call.isFollowUp = true) :
    call.replacesSession = false := by
  cases call <;> first | rfl | cases h

def Call.answer? (range : ByteRange) : Call → Option (Except FetchError RangeAnswer)
  | .fetch _ asked answer _ => if asked = range then some answer else none
  | .connect .. | .disconnect _ | .create .. | .write .. | .close .. | .abort _ | .activate _ | .setState .. | .wait _
  | .acknowledge .. | .drive .. | .tell _ => none

def BreaksOff (answer : Except FetchError RangeAnswer) : Prop :=
  answer = .error .network ∨ answer = .error .notConnected

theorem breaksOff_iff {answer : Except FetchError RangeAnswer} :
    BreaksOff answer ↔ ∃ e, answer = .error e ∧ e.disposition = .retryable := by
  simp only [FetchError.disposition_eq_retryable]
  constructor
  · rintro (rfl | rfl)
    · exact ⟨_, rfl, .inl rfl⟩
    · exact ⟨_, rfl, .inr rfl⟩
  · rintro ⟨e, rfl, rfl | rfl⟩
    · exact .inl rfl
    · exact .inr rfl

/-- The first `count` requests for a range all broke off. -/
def BrokeOff (count : Nat) (range : ByteRange) (calls : List Call) : Prop :=
  count ≤ (calls.filterMap (Call.answer? range)).length ∧
    ∀ answer ∈ (calls.filterMap (Call.answer? range)).take count, BreaksOff answer

theorem brokeOff_of_append {count : Nat} {range : ByteRange} {calls rest : List Call}
    (hcalls : calls.filterMap (Call.answer? range) = []) :
    BrokeOff count range (calls ++ rest) ↔ BrokeOff count range rest := by
  unfold BrokeOff
  rw [List.filterMap_append, hcalls, List.nil_append]

theorem answers_eq_nil {range : ByteRange} {calls : List Call} (h : range ∉ calls.filterMap Call.asked?) :
    calls.filterMap (Call.answer? range) = [] := by
  rw [List.filterMap_eq_nil_iff]
  intro call hcall
  cases call with
  | fetch resource asked answer buffer =>
    exact if_neg fun heq => h (List.mem_filterMap.2 ⟨_, hcall, congrArg some heq⟩)
  | connect | disconnect | create | write | close | abort | activate | setState | wait | acknowledge | drive | tell =>
    rfl

theorem BrokeOff.asked {count : Nat} {range : ByteRange} {calls : List Call} (h : BrokeOff (count + 1) range calls) :
    range ∈ calls.filterMap Call.asked? := by
  by_cases hmem : range ∈ calls.filterMap Call.asked?
  · exact hmem
  · have hlength := h.1
    rw [answers_eq_nil hmem] at hlength
    cases hlength

theorem brokeOff_append {count : Nat} {range : ByteRange} {calls rest : List Call}
    (hrest : rest.filterMap (Call.answer? range) = []) :
    BrokeOff count range (calls ++ rest) ↔ BrokeOff count range calls := by
  unfold BrokeOff
  rw [List.filterMap_append, hrest, List.append_nil]

namespace Download

variable {u : UpdateSettings} {url : ImageUrl} {range : ByteRange}

/-- What stands between two requests for one range. -/
def reconnection (u : UpdateSettings) (url : ImageUrl) (wasOpen : Bool) (opened : Except FetchError Unit) : List Call :=
  [.wait u.retryBackoffMs, .disconnect wasOpen, .connect url.host.text opened]

/-! ## The retries of a range -/

section Exhausted

variable {calls calls' : List Call} {offset made : UInt32}

theorem refusal?_ne_retriesExhausted (answer : Except FetchError RangeAnswer) (offset made : UInt32) :
    range.refusal? answer ≠ some (.retriesExhausted offset made) := by
  unfold ByteRange.refusal?
  cases answer with
  | ok response =>
    simp only
    split
    · simp
    · split <;> simp
  | error e =>
    simp only
    split <;> simp

theorem Fetching.exhausts {retries : Nat} {attempts : UInt32} {outcome : Except UpdateError Bytes}
    (h : Fetching u url range retries attempts calls outcome) :
    attempts.toNat + retries + 1 < UInt32.size →
      (outcome = .error (.retriesExhausted offset made) ↔
        made.toNat = attempts.toNat + retries + 1 ∧ offset = range.first ∧ BrokeOff (retries + 1) range calls) := by
  induction h with
  | received accepted size =>
    intro _
    constructor
    · nofun
    · rintro ⟨-, -, -, hbroke⟩
      simp [Call.answer?, BreaksOff] at hbroke
  | @refused retries attempts answer buffer e refusal =>
    intro _
    constructor
    · intro houtcome
      cases houtcome
      exact absurd refusal (refusal?_ne_retriesExhausted _ _ _)
    · rintro ⟨-, -, -, hbroke⟩
      obtain ⟨fault, rfl, hretryable⟩ := breaksOff_iff.1 (hbroke answer (by simp [Call.answer?]))
      rw [ByteRange.refusal?_of_retryable hretryable] at refusal
      cases refusal
  | @exhausted attempts e buffer interrupted =>
    intro hbound
    have hbroke : BrokeOff (0 + 1) range [.fetch url.resource.text range (.error e) buffer] := by
      simp [BrokeOff, Call.answer?, breaksOff_iff, interrupted]
    have hmade : (attempts + 1).toNat = attempts.toNat + 1 := by
      rw [UInt32.toNat_add, UInt32.toNat_one, Nat.mod_eq_of_lt hbound]
    constructor
    · intro houtcome
      cases houtcome
      exact ⟨hmade, rfl, hbroke⟩
    · rintro ⟨hcount, rfl, -⟩
      rw [UInt32.toNat_inj.1 (hmade.trans hcount.symm)]
  | @again retries attempts e buffer wasOpen opened calls outcome interrupted rest ih =>
    intro hbound
    have hmade : (attempts + 1).toNat = attempts.toNat + 1 := by
      rw [UInt32.toNat_add, UInt32.toNat_one, Nat.mod_eq_of_lt (by simp only [UInt32.size] at hbound; omega)]
    have hbroke : BrokeOff (retries + 1 + 1) range (.fetch url.resource.text range (.error e) buffer ::
        .wait u.retryBackoffMs :: .disconnect wasOpen :: .connect url.host.text opened :: calls) ↔
        BrokeOff (retries + 1) range calls := by
      simp [BrokeOff, List.filterMap_cons, Call.answer?, breaksOff_iff, interrupted]
    rw [ih (by omega), hbroke, hmade]
    constructor
    · rintro ⟨hcount, hrest⟩
      exact ⟨by omega, hrest⟩
    · rintro ⟨hcount, hrest⟩
      exact ⟨by omega, hrest⟩

theorem Fetching.exhausts_of_start {outcome : Except UpdateError Bytes}
    (h : Fetching u url range u.maxRetries.toNat 0 calls outcome) (hbound : u.maxRetries.toNat + 1 < UInt32.size) :
    outcome = .error (.retriesExhausted offset made) ↔
      made.toNat = u.maxRetries.toNat + 1 ∧ offset = range.first ∧ BrokeOff (u.maxRetries.toNat + 1) range calls := by
  have hzero : (0 : UInt32).toNat + u.maxRetries.toNat = u.maxRetries.toNat := Nat.zero_add _
  have hexhausts : _ → (outcome = .error (.retriesExhausted offset made) ↔ _) := h.exhausts
  rw [hzero] at hexhausts
  exact hexhausts hbound

theorem misfit?_ne_retriesExhausted (phase : Phase) (first : UInt32) (chunk : Bytes) (offset made : UInt32) :
    Transfer.misfit? phase first chunk ≠ some (.retriesExhausted offset made) := by
  unfold Transfer.misfit?
  cases phase with
  | receiving expected written =>
    simp only
    split
    · split <;> simp
    · simp
  | idle | validating | ready | failed => simp

theorem fault?_ne_retriesExhausted (first : UInt32) (chunk : Bytes) (answer : Except FlashError Nat)
    (offset made : UInt32) : Transfer.fault? first chunk answer ≠ some (.retriesExhausted offset made) := by
  unfold Transfer.fault?
  cases answer with
  | error e => simp
  | ok taken =>
    simp only
    split <;> simp

theorem not_fails_retriesExhausted (call : Call) (offset made : UInt32) :
    ¬ call.Fails (.retriesExhausted offset made) := by
  cases call with
  | fetch resource range answer buffer => exact refusal?_ne_retriesExhausted _ _ _
  | write first block answer => exact fault?_ne_retriesExhausted _ _ _ _ _
  | connect | disconnect | create | close | abort | activate | setState | wait | acknowledge | drive | tell => exact id

/-- **A chunk uses up its retries exactly if all of its requests broke off.** -/
theorem Moving.exhausts {total index : UInt32} {phase phase' : Phase} {outcome : Except UpdateError Unit}
    (h : Moving u url total index range phase calls outcome phase') (hbound : u.maxRetries.toNat + 1 < UInt32.size) :
    outcome = .error (.retriesExhausted offset made) ↔
      made.toNat = u.maxRetries.toNat + 1 ∧ offset = range.first ∧ BrokeOff (u.maxRetries.toNat + 1) range calls := by
  have htold := filterMap_announced (f := Call.answer? range) (fun _ => rfl) u total index range
  cases h with
  | unfetched fetching =>
    rw [← fetching.exhausts_of_start hbound]
    simp only [Except.error.injEq]
  | unfit fetching misfit =>
    rw [brokeOff_append htold, ← fetching.exhausts_of_start hbound]
    constructor
    · rintro ⟨⟩
      exact absurd misfit (misfit?_ne_retriesExhausted _ _ _ _ _)
    · nofun
  | failed fetching fits fault =>
    rw [brokeOff_append rfl, brokeOff_append htold, ← fetching.exhausts_of_start hbound]
    constructor
    · rintro ⟨⟩
      exact absurd fault (fault?_ne_retriesExhausted _ _ _ _ _)
    · nofun
  | moved fetching fits =>
    rw [brokeOff_append rfl, brokeOff_append htold, ← fetching.exhausts_of_start hbound]
    exact ⟨nofun, nofun⟩

theorem Moving.asks {total index : UInt32} {phase phase' : Phase} {outcome : Except UpdateError Unit}
    (h : Moving u url total index range phase calls outcome phase') :
    ∀ asked ∈ calls.filterMap Call.asked?, asked = range := by
  obtain ⟨again, -, hasked⟩ := h.asked
  intro asked hmem
  rw [hasked] at hmem
  exact List.eq_of_mem_replicate hmem

/-- **A run gives up exactly if all the requests for one of its ranges broke off.** -/
theorem Course.exhausts {plan : ChunkPlan} {index : UInt32} {phase phase' : Phase} {outcome : Except UpdateError Unit}
    (h : Course u url plan index phase calls outcome phase') (hbound : u.maxRetries.toNat + 1 < UInt32.size) :
    outcome = .error (.retriesExhausted offset made) ↔ made.toNat = u.maxRetries.toNat + 1 ∧
      ∃ range ∈ plan.ranges, offset = range.first ∧ BrokeOff (u.maxRetries.toNat + 1) range calls := by
  induction h with
  | done covered =>
    rw [ChunkPlan.ranges_of_none covered]
    exact ⟨nofun, nofun⟩
  | @broken plan rest index range phase calls e phase' step moving =>
    rw [ChunkPlan.ranges_of_some step, moving.exhausts hbound]
    constructor
    · rintro ⟨hmade, hfirst, hbroke⟩
      exact ⟨hmade, range, List.mem_cons_self, hfirst, hbroke⟩
    · rintro ⟨hmade, given, -, hfirst, hbroke⟩
      obtain rfl := moving.asks given hbroke.asked
      exact ⟨hmade, hfirst, hbroke⟩
  | @next plan rest index range phase calls between calls' outcome phase' step moving course ih =>
    have hnodup := ChunkPlan.ranges_nodup plan
    rw [ChunkPlan.ranges_of_some step] at hnodup
    have hfresh := (List.nodup_cons.1 hnodup).1
    have hbefore {later : ByteRange} (hmem : later ∈ rest.ranges) :
        calls.filterMap (Call.answer? later) = [] :=
      answers_eq_nil fun hasked => hfresh (moving.asks later hasked ▸ hmem)
    rw [ChunkPlan.ranges_of_some step, ih]
    constructor
    · rintro ⟨hmade, later, hmem, hfirst, hbroke⟩
      exact ⟨hmade, later, List.mem_cons_of_mem _ hmem, hfirst, (brokeOff_of_append (hbefore hmem)).2 hbroke⟩
    · rintro ⟨hmade, given, hmem, hfirst, hbroke⟩
      rcases List.mem_cons.1 hmem with rfl | hmem
      · have hafter := answers_eq_nil fun hasked => hfresh (course.requests.mem hasked)
        exact nomatch (moving.exhausts hbound).2 ⟨hmade, hfirst, (brokeOff_append hafter).1 hbroke⟩
      · exact ⟨hmade, given, hmem, hfirst, (brokeOff_of_append (hbefore hmem)).1 hbroke⟩

end Exhausted

/-! ## Between two requests -/

/-- After a request for a range there is a reconnection, and right after it the next request for the range. -/
def AskedAgain (u : UpdateSettings) (url : ImageUrl) (range : ByteRange) (after : List Call) : Prop :=
  ∃ wasOpen opened answer buffer rest,
    after = reconnection u url wasOpen opened ++ .fetch url.resource.text range answer buffer :: rest

/-- The call is part of a reconnection between two requests for one range, the first of which broke off. -/
def Reconnects (u : UpdateSettings) (url : ImageUrl) (before : List Call) (call : Call) (after : List Call) : Prop :=
  ∃ front head tail rest range broken left answer buffer wasOpen opened,
    before = front ++ .fetch url.resource.text range broken left :: head ∧ BreaksOff broken ∧
      head ++ call :: tail = reconnection u url wasOpen opened ∧
      after = tail ++ .fetch url.resource.text range answer buffer :: rest

theorem AskedAgain.append {after : List Call} (h : AskedAgain u url range after) (rest : List Call) :
    AskedAgain u url range (after ++ rest) := by
  obtain ⟨wasOpen, opened, answer, buffer, later, rfl⟩ := h
  exact ⟨wasOpen, opened, answer, buffer, later ++ rest, by simp⟩

theorem Reconnects.append {before after : List Call} {call : Call} (h : Reconnects u url before call after)
    (rest : List Call) : Reconnects u url before call (after ++ rest) := by
  obtain ⟨front, head, tail, later, range, broken, left, answer, buffer, wasOpen, opened, hbefore, hbroken, hwhole,
    rfl⟩ := h
  exact ⟨front, head, tail, later ++ rest, range, broken, left, answer, buffer, wasOpen, opened, hbefore, hbroken,
    hwhole, by simp⟩

theorem Reconnects.of_append {before after : List Call} {call : Call} (h : Reconnects u url before call after)
    (calls : List Call) : Reconnects u url (calls ++ before) call after := by
  obtain ⟨front, head, tail, later, range, broken, left, answer, buffer, wasOpen, opened, rfl, hrest⟩ := h
  exact ⟨calls ++ front, head, tail, later, range, broken, left, answer, buffer, wasOpen, opened, by simp, hrest⟩

section Between

variable {resource : String} {asked : ByteRange} {answer : Except FetchError RangeAnswer} {buffer : Bytes}
  {calls before after : List Call} {call : Call}

theorem Fetching.starts {retries : Nat} {attempts : UInt32} {outcome : Except UpdateError Bytes}
    (h : Fetching u url range retries attempts calls outcome) :
    ∃ answer buffer rest, calls = .fetch url.resource.text range answer buffer :: rest := by
  cases h with
  | received | refused | exhausted | again => exact ⟨_, _, _, rfl⟩

theorem Fetching.separated {retries : Nat} {attempts : UInt32} {outcome : Except UpdateError Bytes}
    (h : Fetching u url range retries attempts calls outcome)
    (hsuffix : .fetch resource asked answer buffer :: after <:+ calls) (hagain : asked ∈ after.filterMap Call.asked?) :
    AskedAgain u url asked after := by
  induction h with
  | received _ _ =>
    obtain ⟨-, rfl⟩ := suffix_singleton hsuffix
    cases hagain
  | refused _ =>
    obtain ⟨-, rfl⟩ := suffix_singleton hsuffix
    cases hagain
  | exhausted _ =>
    obtain ⟨-, rfl⟩ := suffix_singleton hsuffix
    cases hagain
  | again interrupted rest ih =>
    simp only [List.suffix_cons_iff, List.cons.injEq] at hsuffix
    rcases hsuffix with ⟨hcall, rfl⟩ | ⟨hcall, -⟩ | ⟨hcall, -⟩ | ⟨hcall, -⟩ | hsuffix
    · obtain ⟨-, rfl, -, -⟩ := Call.fetch.inj hcall
      obtain ⟨answer', buffer', later, hrest⟩ := rest.starts
      exact ⟨_, _, answer', buffer', later, by rw [hrest]; rfl⟩
    · cases hcall
    · cases hcall
    · cases hcall
    · exact ih hsuffix

theorem Moving.separated {total index : UInt32} {phase phase' : Phase} {outcome : Except UpdateError Unit}
    (h : Moving u url total index range phase calls outcome phase')
    (hsuffix : .fetch resource asked answer buffer :: after <:+ calls) (hagain : asked ∈ after.filterMap Call.asked?) :
    AskedAgain u url asked after := by
  obtain ⟨fetched, rest, chunk, rfl, fetching, hrest⟩ := h.split
  rcases suffix_append hsuffix with ⟨tail, rfl, htail⟩ | hlater
  · rw [List.filterMap_append, asked_of_followUps hrest, List.append_nil] at hagain
    exact (fetching.separated htail hagain).append rest
  · cases hrest _ (hlater.subset List.mem_cons_self)

theorem Course.separated {plan : ChunkPlan} {index : UInt32} {phase phase' : Phase} {outcome : Except UpdateError Unit}
    (h : Course u url plan index phase calls outcome phase')
    (hsuffix : .fetch resource asked answer buffer :: after <:+ calls) (hagain : asked ∈ after.filterMap Call.asked?) :
    AskedAgain u url asked after := by
  induction h generalizing after with
  | done covered => simp at hsuffix
  | broken step moving => exact moving.separated hsuffix hagain
  | @next plan rest index range phase calls between calls' outcome phase' step moving course ih =>
    rcases suffix_append hsuffix with ⟨tail, rfl, htail⟩ | hlater
    · have hasked : asked = range := moving.asks asked
        (List.mem_filterMap.2 ⟨_, htail.subset List.mem_cons_self, rfl⟩)
      have hnodup := ChunkPlan.ranges_nodup plan
      rw [ChunkPlan.ranges_of_some step] at hnodup
      rw [List.filterMap_append] at hagain
      rcases List.mem_append.1 hagain with hagain | hagain
      · exact (moving.separated htail hagain).append calls'
      · exact absurd (hasked ▸ course.requests.mem hagain) (List.nodup_cons.1 hnodup).1
    · exact ih hlater hagain

theorem Fetching.reconnects {retries : Nat} {attempts : UInt32} {outcome : Except UpdateError Bytes}
    (h : Fetching u url range retries attempts calls outcome) (hreplaces : call.replacesSession = true) :
    ∀ {before : List Call}, calls = before ++ call :: after → Reconnects u url before call after := by
  induction h with
  | received _ _ =>
    intro before hsplit
    obtain ⟨rfl, -⟩ := suffix_singleton ⟨before, hsplit.symm⟩
    cases hreplaces
  | refused _ =>
    intro before hsplit
    obtain ⟨rfl, -⟩ := suffix_singleton ⟨before, hsplit.symm⟩
    cases hreplaces
  | exhausted _ =>
    intro before hsplit
    obtain ⟨rfl, -⟩ := suffix_singleton ⟨before, hsplit.symm⟩
    cases hreplaces
  | @again retries attempts e buffer wasOpen opened calls outcome interrupted rest ih =>
    intro before hsplit
    have hbroken : BreaksOff (.error e) := breaksOff_iff.2 ⟨e, rfl, interrupted⟩
    obtain ⟨answer, left, later, hrest⟩ := rest.starts
    -- the call is the request itself, one of the three calls after it, or further on
    rcases List.cons_eq_append_iff.1 hsplit with ⟨rfl, hcall⟩ | ⟨before₁, rfl, hwait⟩
    · obtain ⟨rfl, -⟩ := List.cons.inj hcall
      cases hreplaces
    rcases List.cons_eq_append_iff.1 hwait with ⟨rfl, hcall⟩ | ⟨before₂, rfl, hdisconnect⟩
    · obtain ⟨rfl, rfl⟩ := List.cons.inj hcall
      exact ⟨[], [], [_, _], later, range, _, buffer, answer, left, wasOpen, opened, rfl, hbroken, rfl,
        by rw [hrest]; rfl⟩
    rcases List.cons_eq_append_iff.1 hdisconnect with ⟨rfl, hcall⟩ | ⟨before₃, rfl, hconnect⟩
    · obtain ⟨rfl, rfl⟩ := List.cons.inj hcall
      exact ⟨[], [_], [_], later, range, _, buffer, answer, left, wasOpen, opened, rfl, hbroken, rfl,
        by rw [hrest]; rfl⟩
    rcases List.cons_eq_append_iff.1 hconnect with ⟨rfl, hcall⟩ | ⟨before₄, rfl, hlater⟩
    · obtain ⟨rfl, rfl⟩ := List.cons.inj hcall
      exact ⟨[], [_, _], [], later, range, _, buffer, answer, left, wasOpen, opened, rfl, hbroken, rfl, hrest⟩
    exact (ih hlater).of_append [_, _, _, _]

theorem Moving.reconnects {total index : UInt32} {phase phase' : Phase} {outcome : Except UpdateError Unit}
    (h : Moving u url total index range phase calls outcome phase') (hreplaces : call.replacesSession = true)
    (hsplit : calls = before ++ call :: after) : Reconnects u url before call after := by
  obtain ⟨fetched, rest, chunk, rfl, fetching, hrest⟩ := h.split
  rcases split_append hsplit with ⟨tail, hfetched, rfl⟩ | ⟨head, -, rfl⟩
  · exact (fetching.reconnects hreplaces hfetched).append rest
  · rw [Call.replacesSession_of_isFollowUp (hrest call (by simp))] at hreplaces
    cases hreplaces

theorem Course.reconnects {plan : ChunkPlan} {index : UInt32} {phase phase' : Phase}
    {outcome : Except UpdateError Unit} (h : Course u url plan index phase calls outcome phase')
    (hreplaces : call.replacesSession = true) :
    ∀ {before : List Call}, calls = before ++ call :: after → Reconnects u url before call after := by
  induction h with
  | done covered =>
    intro before hsplit
    simp at hsplit
  | broken step moving => exact moving.reconnects hreplaces
  | @next plan rest index range phase calls between calls' outcome phase' step moving course ih =>
    intro before hsplit
    rcases split_append hsplit with ⟨tail, hcalls, rfl⟩ | ⟨head, rfl, hcalls'⟩
    · exact (moving.reconnects hreplaces hcalls).append calls'
    · exact (ih hcalls').of_append calls

end Between

/-! ## The retries of a run -/

/-- The answer to a request for the range is a failure that asking again does not help. -/
def Refuses (range : ByteRange) : Except FetchError RangeAnswer → Prop
  | .ok answer => 400 ≤ answer.status ∨ answer.bodySize.toNat ≠ range.size.toNat
  | .error e => e ≠ .network ∧ e ≠ .notConnected

theorem refusal?_of_refuses {answer : Except FetchError RangeAnswer} (h : Refuses range answer) :
    ∃ e, range.refusal? answer = some e := by
  cases answer with
  | ok response =>
    by_cases hfailure : response.isFailure = true
    · exact ⟨_, if_pos hfailure⟩
    · have hsize : response.bodySize.toNat ≠ range.size.toNat :=
        h.resolve_left fun hstatus => hfailure (decide_eq_true hstatus)
      exact ⟨_, (if_neg hfailure).trans (if_neg hsize)⟩
  | error e =>
    by_cases hfatal : e.disposition = .fatal
    · exact ⟨_, if_pos hfatal⟩
    · cases e <;> first | exact absurd rfl hfatal | exact absurd rfl h.1 | exact absurd rfl h.2

/-- How a run spends its retries: how often it asks, what it does in between, and when it gives up. -/
structure Persists (u : UpdateSettings) (url : ImageUrl) (plan : ChunkPlan) (calls : List Call)
    (result : Except UpdateError Unit) : Prop where
  budget : ∀ range, (calls.filterMap Call.asked?).count range ≤ u.maxRetries.toNat + 1
  total : (calls.filterMap Call.asked?).length ≤ plan.count.toNat * (u.maxRetries.toNat + 1)
  /-- Between a request for a range and the next one for it there is a reconnection and nothing else. -/
  separated : ∀ resource range answer buffer after, .fetch resource range answer buffer :: after <:+ calls →
    range ∈ after.filterMap Call.asked? → AskedAgain u url range after
  nowhereElse : ∀ before call after, calls = before ++ call :: after → call.replacesSession = true →
    Reconnects u url before call after
  exhausted : ∀ offset attempts, result = .error (.retriesExhausted offset attempts) ↔
    attempts.toNat = u.maxRetries.toNat + 1 ∧
      ∃ range ∈ plan.ranges, offset = range.first ∧ BrokeOff (u.maxRetries.toNat + 1) range calls
  lastAttempt : ∀ offset attempts, result = .error (.retriesExhausted offset attempts) →
    ∃ front resource range answer buffer, calls = front ++ [.fetch resource range answer buffer] ∧
      BreaksOff answer ∧ offset = range.first
  fatal : ∀ resource range answer buffer after, .fetch resource range answer buffer :: after <:+ calls →
    Refuses range answer → after = [] ∧ ∃ e, range.refusal? answer = some e ∧ result = .error e

variable {C F : Type} [RangeSource C] [FlashDevice F]

/-- **A run keeps to its retries**, whatever the source and the flash device answer and whatever the transfer was. -/
theorem run_persists (hsettings : u.fault? = none) (url : ImageUrl) (total : UInt32) (d : Device C F) :
    ((run u url total).after d).calls = d.calls ++ (run u url total).made d ∧
      Persists u url (.ofSize total u.chunkSize) ((run u url total).made d) ((run u url total).result d) := by
  have hrange := UpdateSettings.fault?_eq_none.1 hsettings
  have hbound : u.maxRetries.toNat + 1 < UInt32.size := by
    have := hrange.maxRetries.2
    simp only [UInt32.size]
    omega
  obtain ⟨hcalls, hcourse⟩ := course_of_run hrange.chunkSize_ne_zero url total d
  refine ⟨hcalls, ?_⟩
  exact
    { budget := hcourse.requests.count_le (ChunkPlan.ranges_nodup _)
      total := by
        rw [← ChunkPlan.length_ranges_ofSize]
        exact hcourse.requests.length_le
      separated := fun _ _ _ _ _ => hcourse.separated
      nowhereElse := fun _ _ _ hsplit hreplaces => hcourse.reconnects hreplaces hsplit
      exhausted := fun _ _ => hcourse.exhausts hbound
      lastAttempt := fun offset attempts hresult => by
        rw [hresult] at hcourse
        obtain ⟨front, call, hfront, hfails | ⟨resource, range, fault, buffer, made, rfl, hretryable, hoffset⟩⟩ :=
          hcourse.raises fun _ _ _ => misfit?_ne_retriesExhausted _ _ _ _ _
        · exact absurd hfails (not_fails_retriesExhausted _ _ _)
        · obtain ⟨rfl, -⟩ := UpdateError.retriesExhausted.inj hoffset
          exact ⟨front, resource, range, _, buffer, hfront, breaksOff_iff.2 ⟨fault, rfl, hretryable⟩, rfl⟩
      fatal := fun resource range answer buffer after hsuffix hrefuses => by
        obtain ⟨e, hrefusal⟩ := refusal?_of_refuses hrefuses
        obtain ⟨hafter, hresult⟩ := hcourse.final hsuffix hrefusal
        exact ⟨hafter, e, hrefusal, hresult⟩ }

/-- A source whose session is closed; the network lets no other open. -/
def offline : RehearsedSource := { connects := [some .network, some .network] }

def offlineRun : Task RehearsedSource FaultyPartition UpdateError Unit :=
  run { maxRetries := 2 } ⟨⟨"host", host_fits⟩, ⟨"/image", resource_fits⟩⟩ 3

theorem offline_persists :
    offlineRun.result (awaiting offline) = .error (.retriesExhausted 0 3) ∧
      Persists { maxRetries := 2 } ⟨⟨"host", by decide⟩, ⟨"/image", by decide⟩⟩ (.ofSize 3 4096)
        (offlineRun.made (awaiting offline)) (offlineRun.result (awaiting offline)) := by
  obtain ⟨-, hpersists⟩ := run_persists (u := { maxRetries := 2 }) (by decide)
    ⟨⟨"host", by decide⟩, ⟨"/image", by decide⟩⟩ 3 (awaiting offline)
  refine ⟨?_, hpersists⟩
  have hstep : (ChunkPlan.ofSize 3 4096).step? = some (⟨0, 2⟩, { ChunkPlan.ofSize 3 4096 with next := 3 }) := rfl
  unfold offlineRun run
  rw [runPlan_of_some _ _ hstep]
  exact Task.result_of_error (Task.bind_of_error rfl)

end Download
end Firmware
