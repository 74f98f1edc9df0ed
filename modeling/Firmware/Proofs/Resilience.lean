import Firmware.Proofs.Course
/-!
# Resilience — a failing network leaves no trace

What a chunk comes to depends only on the final answer to its range, not on how often the network failed before it
(`fetchChunk_of_settles`).  So two sources that give the same final answers lead two devices through the same run: it
ends the same, tells and writes the same, and leaves the same transfer and the same flash device.
-/
namespace Firmware

/-- The answer to a range after which it is not asked for again. -/
inductive Final where
  | response (status : UInt16) (bodySize : UInt64) (body : Bytes)
  | fatal (e : FetchError)

namespace Final

def IsGiven : Final → Fetched → Prop
  | .response status bodySize body, fetched =>
    (∃ contentRange, fetched.answer = .ok { status, contentRange, bodySize }) ∧
      fetched.buffer.take bodySize.toNat = body
  | .fatal e, fetched => fetched.answer = .error e ∧ e.disposition = .fatal

def outcome (range : ByteRange) : Final → Except UpdateError Bytes
  | .response status bodySize body =>
    if 400 ≤ status then .error (.fetch (.status status))
    else if bodySize.toNat = range.size.toNat then .ok body
    else .error (.unexpectedBodySize range.first range.size bodySize.toUInt32)
  | .fatal e => .error (.fetch e)

def Fills (range : ByteRange) (final : Final) : Prop := ∃ chunk, final.outcome range = .ok chunk

theorem outcome_of_isGiven {final : Final} {range : ByteRange} {answer : Except FetchError RangeAnswer} {left : Bytes}
    (h : final.IsGiven ⟨answer, left⟩) (hroom : left.length = range.size.toNat) :
    (∃ e, final.outcome range = .error e ∧ range.refusal? answer = some e) ∨
      ∃ response, answer = .ok response ∧ final.outcome range = .ok left ∧ range.refusal? answer = none := by
  cases final with
  | response status bodySize body =>
    obtain ⟨⟨contentRange, rfl⟩, rfl⟩ := h
    by_cases hfailure : 400 ≤ status
    · exact .inl ⟨_, if_pos hfailure, if_pos (decide_eq_true hfailure)⟩
    have hsuccess : ¬ RangeAnswer.isFailure { status, contentRange, bodySize } = true :=
      fun h => hfailure (of_decide_eq_true h)
    by_cases hsize : bodySize.toNat = range.size.toNat
    · have hwhole : left.take bodySize.toNat = left := List.take_of_length_le (by omega)
      refine .inr ⟨_, rfl, ?_, (if_neg hsuccess).trans (if_pos hsize)⟩
      rw [outcome, if_neg hfailure, if_pos hsize, hwhole]
    · exact .inl ⟨_, (if_neg hfailure).trans (if_neg hsize), (if_neg hsuccess).trans (if_neg hsize)⟩
  | fatal e =>
    obtain ⟨rfl, hfatal⟩ := h
    exact .inl ⟨_, rfl, if_pos hfatal⟩

end Final

namespace RangeSource

variable {C : Type} [RangeSource C]

/-- Asked for a range, the source gives its final answer after so many network failures at most, each followed by a new
session that may fail to open, and is then in `next`. -/
def Settles (url : ImageUrl) (range : ByteRange) (final : Final) (next : C → Prop) : (failures : Nat) → C → Prop
  | 0, c => ∀ buffer : Bytes, buffer.length = range.size.toNat →
    final.IsGiven (fetch c url.resource.text range buffer).1 ∧ next (fetch c url.resource.text range buffer).2
  | failures + 1, c => ∀ buffer : Bytes, buffer.length = range.size.toNat →
    final.IsGiven (fetch c url.resource.text range buffer).1 ∧ next (fetch c url.resource.text range buffer).2 ∨
      (∃ e, (fetch c url.resource.text range buffer).1.answer = .error e ∧ e.disposition = .retryable) ∧
        Settles url range final next failures
          (connect (disconnect (fetch c url.resource.text range buffer).2) url.host.text).2

/-- The source settles one range after the other, up to the first whose final answer does not fill it. -/
def SettlesAll (url : ImageUrl) (final : ByteRange → Final) (failures : Nat) : List ByteRange → C → Prop
  | [], _ => True
  | range :: ranges, c =>
    Settles url range (final range) (fun c => (final range).Fills range → SettlesAll url final failures ranges c)
      failures c

end RangeSource

namespace Download

variable {C F : Type} [RangeSource C] {u : UpdateSettings} {url : ImageUrl} {range : ByteRange}

theorem fetchChunk_of_isGiven {final : Final} {answer : Except FetchError RangeAnswer} {buffer left : Bytes}
    {source : C} {d : Device C F} (u : UpdateSettings) (attempts : UInt32) (retries : Nat)
    (hfetch : RangeSource.fetch d.source url.resource.text range buffer = (⟨answer, left⟩, source))
    (hroom : left.length = range.size.toNat) (hgiven : final.IsGiven ⟨answer, left⟩) :
    fetchChunk u url range attempts buffer retries d =
      Task.conclude (final.outcome range) ({ d with source }.note (.fetch url.resource.text range answer left)) := by
  rcases Final.outcome_of_isGiven hgiven hroom with ⟨e, houtcome, hrefusal⟩ | ⟨response, rfl, houtcome, haccepted⟩
  · rw [houtcome]
    rcases request_cases hfetch with ⟨e', hrefusal', hrun⟩ | ⟨_, -, hnone, -⟩ | ⟨e', rfl, hretryable, -⟩
    · obtain rfl := Option.some.inj (hrefusal.symm.trans hrefusal')
      exact fetchChunk_of_refused u attempts retries hrun
    · cases hrefusal.symm.trans hnone
    · cases hrefusal.symm.trans (ByteRange.refusal?_of_retryable hretryable)
  · rw [houtcome]
    rcases request_cases hfetch with ⟨e', hrefusal, -⟩ | ⟨_, -, -, hrun⟩ | ⟨e', hanswer, -⟩
    · cases haccepted.symm.trans hrefusal
    · exact fetchChunk_of_received u attempts retries hrun
    · cases hanswer

/-- **A chunk comes to what the final answer makes of it**, and only the source was called for it. -/
theorem fetchChunk_of_settles {final : Final} {next : C → Prop} (failures : Nat) :
    ∀ (attempts : UInt32) {retries : Nat} {buffer : Bytes} {d : Device C F}, failures ≤ retries →
      buffer.length = range.size.toNat → RangeSource.Settles url range final next failures d.source →
      ∃ d' calls, fetchChunk u url range attempts buffer retries d = Task.conclude (final.outcome range) d' ∧
        next d'.source ∧ d'.transfer = d.transfer ∧ d'.flash = d.flash ∧ d'.calls = d.calls ++ calls ∧
        calls.filter Call.isFollowUp = [] := by
  induction failures with
  | zero =>
    intro attempts retries buffer d _ hroom hsettles
    have hlength := RangeSource.length_fetch d.source url.resource.text range buffer
    obtain ⟨hgiven, hnext⟩ := hsettles buffer hroom
    rcases hfetch : RangeSource.fetch d.source url.resource.text range buffer with ⟨⟨answer, left⟩, source⟩
    rw [hfetch] at hlength hgiven hnext
    exact ⟨_, _, fetchChunk_of_isGiven u attempts retries hfetch (hlength.trans hroom) hgiven, hnext, rfl, rfl,
      Device.calls_note _ _, rfl⟩
  | succ failures ih =>
    intro attempts retries buffer d hle hroom hsettles
    have hlength := RangeSource.length_fetch d.source url.resource.text range buffer
    have hanswer := hsettles buffer hroom
    rcases hfetch : RangeSource.fetch d.source url.resource.text range buffer with ⟨⟨answer, left⟩, source⟩
    rw [hfetch] at hlength hanswer
    rcases hanswer with ⟨hgiven, hnext⟩ | ⟨⟨e, rfl, hretryable⟩, hsettles⟩
    · exact ⟨_, _, fetchChunk_of_isGiven u attempts retries hfetch (hlength.trans hroom) hgiven, hnext, rfl, rfl,
        Device.calls_note _ _, rfl⟩
    · obtain ⟨retries, rfl⟩ := Nat.exists_eq_add_of_le' (Nat.le_trans (Nat.le_add_left 1 failures) hle)
      obtain ⟨wasOpen, opened, m, hreconnect, hsource, hflash, htransfer, hcalls⟩ := reconnect_eq_ok u url.host.text
        ({ d with source }.note (.fetch url.resource.text range (.error e) left))
      have hrequest : request url range buffer d =
          .ok (.interrupted left) ({ d with source }.note (.fetch url.resource.text range (.error e) left)) := by
        rcases request_cases hfetch with ⟨e', hrefusal, -⟩ | ⟨_, hanswer, -⟩ | ⟨_, -, -, hrun⟩
        · cases (ByteRange.refusal?_of_retryable hretryable).symm.trans hrefusal
        · cases hanswer
        · exact hrun
      have hsettles' : RangeSource.Settles url range final next failures m.source := by
        rw [hsource]
        exact hsettles
      obtain ⟨d', calls, hrun, hnext, htransfer', hflash', hcalls', hquiet⟩ :=
        ih (attempts + 1) (Nat.le_of_succ_le_succ hle) (hlength.trans hroom) hsettles'
      refine ⟨d', .fetch url.resource.text range (.error e) left :: .wait u.retryBackoffMs :: .disconnect wasOpen ::
        .connect url.host.text opened :: calls, ?_, hnext, htransfer'.trans htransfer, hflash'.trans hflash, ?_, hquiet⟩
      · rw [fetchChunk_of_interrupted attempts retries hrequest hreconnect, hrun]
      · rw [hcalls', hcalls, Device.calls_note, List.append_assoc, List.append_assoc]
        rfl

end Download

/-! ## Two runs side by side -/

/-- Two devices that differ at most in their sources, which `S` relates, and in what was called on these. -/
structure Alike {C₁ C₂ F : Type} (since₁ since₂ : List Call) (S : C₁ → C₂ → Prop) (d₁ : Device C₁ F)
    (d₂ : Device C₂ F) : Prop where
  transfer : d₁.transfer = d₂.transfer
  flash : d₁.flash = d₂.flash
  calls : ∃ calls₁ calls₂, d₁.calls = since₁ ++ calls₁ ∧ d₂.calls = since₂ ++ calls₂ ∧
    calls₁.filter Call.isFollowUp = calls₂.filter Call.isFollowUp
  sources : S d₁.source d₂.source

/-- From devices that are alike the two tasks end with the same answer, on devices that are alike; if the answer is a
value, their sources are in `S'`. -/
def Parallel {C₁ C₂ F ε α : Type} (since₁ since₂ : List Call) (S S' : C₁ → C₂ → Prop) (task₁ : Task C₁ F ε α)
    (task₂ : Task C₂ F ε α) : Prop :=
  ∀ d₁ d₂, Alike since₁ since₂ S d₁ d₂ →
    (∃ a m₁ m₂, task₁ d₁ = .ok a m₁ ∧ task₂ d₂ = .ok a m₂ ∧ Alike since₁ since₂ S' m₁ m₂) ∨
      ∃ e m₁ m₂, task₁ d₁ = .error e m₁ ∧ task₂ d₂ = .error e m₂ ∧ Alike since₁ since₂ (fun _ _ => True) m₁ m₂

section Parallel

variable {C₁ C₂ F ε α β : Type} {since₁ since₂ : List Call} {S S' S'' : C₁ → C₂ → Prop}

theorem Alike.forget {d₁ : Device C₁ F} {d₂ : Device C₂ F} (h : Alike since₁ since₂ S d₁ d₂) :
    Alike since₁ since₂ (fun _ _ => True) d₁ d₂ :=
  ⟨h.transfer, h.flash, h.calls, trivial⟩

theorem Alike.note {d₁ : Device C₁ F} {d₂ : Device C₂ F} (h : Alike since₁ since₂ S d₁ d₂) (call : Call) :
    Alike since₁ since₂ S (d₁.note call) (d₂.note call) := by
  obtain ⟨calls₁, calls₂, h₁, h₂, hsame⟩ := h.calls
  refine ⟨h.transfer, h.flash, ⟨calls₁ ++ [call], calls₂ ++ [call], ?_, ?_, ?_⟩, h.sources⟩
  · rw [Device.calls_note, h₁, List.append_assoc]
  · rw [Device.calls_note, h₂, List.append_assoc]
  · rw [List.filter_append, List.filter_append, hsame]

theorem Parallel.ends {task₁ : Task C₁ F ε α} {task₂ : Task C₂ F ε α} {d₁ : Device C₁ F} {d₂ : Device C₂ F}
    (h : Parallel since₁ since₂ S S' task₁ task₂) (hd : Alike since₁ since₂ S d₁ d₂) :
    task₁.result d₁ = task₂.result d₂ ∧ Alike since₁ since₂ (fun _ _ => True) (task₁.after d₁) (task₂.after d₂) := by
  rcases h d₁ d₂ hd with ⟨a, m₁, m₂, h₁, h₂, hm⟩ | ⟨e, m₁, m₂, h₁, h₂, hm⟩
  · rw [Task.result_of_ok h₁, Task.result_of_ok h₂, Task.after_of_ok h₁, Task.after_of_ok h₂]
    exact ⟨rfl, hm.forget⟩
  · rw [Task.result_of_error h₁, Task.result_of_error h₂, Task.after_of_error h₁, Task.after_of_error h₂]
    exact ⟨rfl, hm⟩

theorem parallel_bind {task₁ : Task C₁ F ε α} {task₂ : Task C₂ F ε α} {next₁ : α → Task C₁ F ε β}
    {next₂ : α → Task C₂ F ε β} (h : Parallel since₁ since₂ S S' task₁ task₂)
    (hnext : ∀ a, Parallel since₁ since₂ S' S'' (next₁ a) (next₂ a)) :
    Parallel since₁ since₂ S S'' (task₁ >>= next₁) (task₂ >>= next₂) := by
  intro d₁ d₂ hd
  rcases h d₁ d₂ hd with ⟨a, m₁, m₂, h₁, h₂, hm⟩ | ⟨e, m₁, m₂, h₁, h₂, hm⟩
  · rw [Task.bind_of_ok h₁, Task.bind_of_ok h₂]
    exact hnext a m₁ m₂ hm
  · exact .inr ⟨e, m₁, m₂, Task.bind_of_error h₁, Task.bind_of_error h₂, hm⟩

theorem parallel_pure (a : α) :
    Parallel since₁ since₂ S S (pure a : Task C₁ F ε α) (pure a : Task C₂ F ε α) :=
  fun d₁ d₂ hd => .inl ⟨a, d₁, d₂, rfl, rfl, hd⟩

theorem parallel_throw (e : ε) : Parallel since₁ since₂ S S' (throw e : Task C₁ F ε α) (throw e : Task C₂ F ε α) :=
  fun d₁ d₂ hd => .inr ⟨e, d₁, d₂, rfl, rfl, hd.forget⟩

theorem parallel_transferNow :
    Parallel since₁ since₂ S S (Device.transferNow : Task C₁ F ε Transfer)
      (Device.transferNow : Task C₂ F ε Transfer) :=
  fun d₁ d₂ hd => .inl ⟨d₁.transfer, d₁, d₂, rfl, by rw [hd.transfer]; rfl, hd⟩

theorem parallel_setPhase (phase : Phase) :
    Parallel since₁ since₂ S S (Device.setPhase phase : Task C₁ F ε Unit) (Device.setPhase phase : Task C₂ F ε Unit) :=
  fun d₁ d₂ hd => .inl ⟨(), _, _, rfl, rfl, by rw [hd.transfer], hd.flash, hd.calls, hd.sources⟩

theorem parallel_report (u : UpdateSettings) (total index : UInt32) (range : ByteRange) :
    Parallel since₁ since₂ S S (Download.report u total index range : Task C₁ F ε Unit)
      (Download.report u total index range : Task C₂ F ε Unit) := by
  intro d₁ d₂ hd
  rw [Download.report_apply, Download.report_apply]
  by_cases htells : Download.tellsProgress u index = true
  · rw [if_pos htells, if_pos htells]
    exact .inl ⟨(), _, _, rfl, rfl, hd.note _⟩
  · rw [if_neg htells, if_neg htells]
    exact .inl ⟨(), _, _, rfl, rfl, hd⟩

variable [FlashDevice F]

theorem parallel_attempt_write (offset : UInt32) (block : Bytes) :
    Parallel since₁ since₂ S S (Task.attempt (Device.write offset block) : Task C₁ F ε _)
      (Task.attempt (Device.write offset block) : Task C₂ F ε _) := by
  intro d₁ d₂ hd
  rw [Device.attempt_write, Device.attempt_write, hd.flash]
  have hwritten : Alike since₁ since₂ S { d₁ with flash := (FlashDevice.write d₂.flash offset block).2 }
      { d₂ with flash := (FlashDevice.write d₂.flash offset block).2 } :=
    ⟨hd.transfer, rfl, hd.calls, hd.sources⟩
  exact .inl ⟨_, _, _, rfl, rfl, hwritten.note _⟩

theorem parallel_write (offset : UInt32) (block : Bytes) :
    Parallel since₁ since₂ S S (Transfer.write offset block : Task C₁ F UpdateError UInt32)
      (Transfer.write offset block : Task C₂ F UpdateError UInt32) := by
  unfold Transfer.write
  refine parallel_bind parallel_transferNow fun transfer => ?_
  simp only [Task.throw_bind]
  cases transfer.phase with
  | receiving expected written =>
    simp only
    split
    · exact parallel_throw _
    split
    · exact parallel_throw _
    refine parallel_bind (parallel_attempt_write _ _) fun answer => ?_
    cases answer with
    | error e => exact parallel_bind (parallel_setPhase _) fun _ => parallel_throw _
    | ok taken =>
      simp only
      split
      · exact parallel_bind (parallel_setPhase _) fun _ => parallel_throw _
      · exact parallel_bind (parallel_setPhase _) fun _ => parallel_pure _
  | idle | validating | ready | failed => exact parallel_throw _

end Parallel

namespace Download

variable {C₁ C₂ F : Type} [RangeSource C₁] [RangeSource C₂] {since₁ since₂ : List Call} {u : UpdateSettings}
  {url : ImageUrl} {range : ByteRange}

/-- **The retries of a chunk leave no trace.** -/
theorem parallel_fetchChunk {final : Final} {next₁ : C₁ → Prop} {next₂ : C₂ → Prop} {failures₁ failures₂ : Nat}
    {buffer : Bytes} (hroom : buffer.length = range.size.toNat) (h₁ : failures₁ ≤ u.maxRetries.toNat)
    (h₂ : failures₂ ≤ u.maxRetries.toNat) :
    Parallel since₁ since₂
      (fun c₁ c₂ => RangeSource.Settles url range final (fun c => final.Fills range → next₁ c) failures₁ c₁ ∧
        RangeSource.Settles url range final (fun c => final.Fills range → next₂ c) failures₂ c₂)
      (fun c₁ c₂ => next₁ c₁ ∧ next₂ c₂)
      (fetchChunk u url range 0 buffer u.maxRetries.toNat : Task C₁ F UpdateError Bytes)
      (fetchChunk u url range 0 buffer u.maxRetries.toNat : Task C₂ F UpdateError Bytes) := by
  intro d₁ d₂ hd
  obtain ⟨hsettles₁, hsettles₂⟩ := hd.sources
  obtain ⟨m₁, made₁, hrun₁, hnext₁, htransfer₁, hflash₁, hcalls₁, hquiet₁⟩ :=
    fetchChunk_of_settles failures₁ 0 h₁ hroom hsettles₁
  obtain ⟨m₂, made₂, hrun₂, hnext₂, htransfer₂, hflash₂, hcalls₂, hquiet₂⟩ :=
    fetchChunk_of_settles failures₂ 0 h₂ hroom hsettles₂
  obtain ⟨calls₁, calls₂, hbefore₁, hbefore₂, hsame⟩ := hd.calls
  have hm : Alike since₁ since₂ (fun _ _ => True) m₁ m₂ := by
    refine ⟨htransfer₁.trans (hd.transfer.trans htransfer₂.symm), hflash₁.trans (hd.flash.trans hflash₂.symm),
      ⟨calls₁ ++ made₁, calls₂ ++ made₂, ?_, ?_, ?_⟩, trivial⟩
    · rw [hcalls₁, hbefore₁, List.append_assoc]
    · rw [hcalls₂, hbefore₂, List.append_assoc]
    · rw [List.filter_append, List.filter_append, hquiet₁, hquiet₂, hsame]
  rw [hrun₁, hrun₂]
  cases houtcome : final.outcome range with
  | error e => exact .inr ⟨e, m₁, m₂, rfl, rfl, hm⟩
  | ok chunk =>
    have hfills : final.Fills range := ⟨chunk, houtcome⟩
    exact .inl ⟨chunk, m₁, m₂, rfl, rfl, hm.transfer, hm.flash, hm.calls, hnext₁ hfills, hnext₂ hfills⟩

variable [FlashDevice F]

theorem parallel_fetchAndWrite {final : Final} {next₁ : C₁ → Prop} {next₂ : C₂ → Prop} {failures₁ failures₂ : Nat}
    (h₁ : failures₁ ≤ u.maxRetries.toNat) (h₂ : failures₂ ≤ u.maxRetries.toNat) (total index : UInt32)
    (buffer : Bytes) :
    Parallel since₁ since₂
      (fun c₁ c₂ => RangeSource.Settles url range final (fun c => final.Fills range → next₁ c) failures₁ c₁ ∧
        RangeSource.Settles url range final (fun c => final.Fills range → next₂ c) failures₂ c₂)
      (fun c₁ c₂ => next₁ c₁ ∧ next₂ c₂)
      (fetchAndWrite u url total index range buffer : Task C₁ F UpdateError Bytes)
      (fetchAndWrite u url total index range buffer : Task C₂ F UpdateError Bytes) := by
  by_cases hroom : range.size.toNat ≤ buffer.length
  · have htake : (buffer.take range.size.toNat).length = range.size.toNat := by
      rw [List.length_take]
      omega
    rw [fetchAndWrite_of_room hroom, fetchAndWrite_of_room hroom]
    refine parallel_bind (parallel_fetchChunk htake h₁ h₂) fun chunk => ?_
    refine parallel_bind (parallel_report _ _ _ _) fun _ => ?_
    refine parallel_bind ?_ fun _ => parallel_pure _
    exact parallel_bind (parallel_write _ _) fun _ => parallel_pure _
  · have hshort := Nat.lt_of_not_le hroom
    rw [fetchAndWrite_of_no_room hshort, fetchAndWrite_of_no_room hshort]
    exact parallel_throw _

theorem parallel_runPlan {final : ByteRange → Final} {failures₁ failures₂ : Nat}
    (h₁ : failures₁ ≤ u.maxRetries.toNat) (h₂ : failures₂ ≤ u.maxRetries.toNat) (plan : ChunkPlan) :
    ∀ (index : UInt32) (buffer : Bytes), Parallel since₁ since₂
      (fun c₁ c₂ => RangeSource.SettlesAll url final failures₁ plan.ranges c₁ ∧
        RangeSource.SettlesAll url final failures₂ plan.ranges c₂)
      (fun _ _ => True) (runPlan u url plan index buffer : Task C₁ F UpdateError Unit)
      (runPlan u url plan index buffer : Task C₂ F UpdateError Unit) := by
  induction plan using ChunkPlan.ranges.induct with
  | case1 plan hstep =>
    intro index buffer d₁ d₂ hd
    rw [runPlan_of_none _ _ hstep, runPlan_of_none _ _ hstep]
    exact .inl ⟨(), d₁, d₂, rfl, rfl, hd.forget⟩
  | case2 plan range rest hstep ih =>
    intro index buffer
    rw [runPlan_of_some _ _ hstep, runPlan_of_some _ _ hstep, ChunkPlan.ranges_of_some hstep]
    exact parallel_bind (parallel_fetchAndWrite h₁ h₂ _ _ _) fun buffer => ih (index + 1) buffer

/-- **A failing network leaves no trace.**  One source gives its final answers at once; the other fails before each of
them, as often as the retries allow.  The two runs end the same, leave the same transfer and the same flash device, and
write and tell the same. -/
theorem retries_leave_no_trace {d₁ : Device C₁ F} {d₂ : Device C₂ F} (u : UpdateSettings) (url : ImageUrl)
    (total : UInt32) (final : ByteRange → Final) (htransfer : d₁.transfer = d₂.transfer) (hflash : d₁.flash = d₂.flash)
    (hcalm : RangeSource.SettlesAll url final 0 (ChunkPlan.ofSize total u.chunkSize).ranges d₁.source)
    (htroubled :
      RangeSource.SettlesAll url final u.maxRetries.toNat (ChunkPlan.ofSize total u.chunkSize).ranges d₂.source) :
    (run u url total).result d₁ = (run u url total).result d₂ ∧
      ((run u url total).after d₁).transfer = ((run u url total).after d₂).transfer ∧
      ((run u url total).after d₁).flash = ((run u url total).after d₂).flash ∧
      ((run u url total).made d₁).filter Call.isFollowUp = ((run u url total).made d₂).filter Call.isFollowUp := by
  have hd : Alike d₁.calls d₂.calls (fun c₁ c₂ =>
      RangeSource.SettlesAll url final 0 (ChunkPlan.ofSize total u.chunkSize).ranges c₁ ∧
        RangeSource.SettlesAll url final u.maxRetries.toNat (ChunkPlan.ofSize total u.chunkSize).ranges c₂) d₁ d₂ :=
    ⟨htransfer, hflash, ⟨[], [], (List.append_nil _).symm, (List.append_nil _).symm, rfl⟩, hcalm, htroubled⟩
  obtain ⟨hresult, hm⟩ := (parallel_runPlan (Nat.zero_le _) Nat.le.refl (.ofSize total u.chunkSize) 0
    (List.replicate (min u.chunkSize.toNat total.toNat) 0)).ends hd
  obtain ⟨calls₁, calls₂, hcalls₁, hcalls₂, hsame⟩ := hm.calls
  have hmade₁ : (run u url total).made d₁ = calls₁ := Task.made_of_calls hcalls₁
  have hmade₂ : (run u url total).made d₂ = calls₂ := Task.made_of_calls hcalls₂
  rw [hmade₁, hmade₂]
  exact ⟨hresult, hm.transfer, hm.flash, hsame⟩

def threeOctets : Rehearsal := .answer 206 none [7, 8, 9] 3

def calm : RehearsedSource := { fetches := [threeOctets], connected := true }

/-- A source whose network fails twice, the second time because the session does not open again. -/
def troubled : RehearsedSource :=
  { fetches := [.fail .network, threeOctets], connects := [some .network], connected := true }

theorem isGiven_threeOctets : ∀ {buffer : Bytes}, buffer.length = 3 →
    (Final.response 206 3 [7, 8, 9]).IsGiven (RehearsedSource.respond 206 none [7, 8, 9] 3 buffer)
  | [_, _, _], _ => ⟨⟨none, rfl⟩, rfl⟩

def threeOctetsRun : Task RehearsedSource FaultyPartition UpdateError Unit :=
  run { maxRetries := 2 } ⟨⟨"host", host_fits⟩, ⟨"/image", resource_fits⟩⟩ 3

theorem troubled_leaves_no_trace :
    threeOctetsRun.result (awaiting calm) = threeOctetsRun.result (awaiting troubled) ∧
      (threeOctetsRun.after (awaiting calm)).flash = (threeOctetsRun.after (awaiting troubled)).flash := by
  have hranges : (ChunkPlan.ofSize 3 4096).ranges = [⟨0, 2⟩] := by
    rw [ChunkPlan.ranges_ofSize]
    decide
  have htransfer : (awaiting calm).transfer = (awaiting troubled).transfer := rfl
  have hflash : (awaiting calm).flash = (awaiting troubled).flash := rfl
  obtain ⟨hresult, -, hsame, -⟩ := retries_leave_no_trace { maxRetries := 2 }
    ⟨⟨"host", by decide⟩, ⟨"/image", by decide⟩⟩ 3 (fun _ => .response 206 3 [7, 8, 9]) htransfer hflash
    (by
      rw [hranges]
      exact fun buffer hbuffer => ⟨isGiven_threeOctets hbuffer, fun _ => trivial⟩)
    (by
      rw [hranges]
      intro buffer hbuffer
      refine .inr ⟨⟨.network, rfl, rfl⟩, fun buffer hbuffer => .inr ⟨⟨.notConnected, rfl, rfl⟩, ?_⟩⟩
      exact fun buffer hbuffer => ⟨isGiven_threeOctets hbuffer, fun _ => trivial⟩)
  exact ⟨hresult, hsame⟩

end Download
end Firmware
