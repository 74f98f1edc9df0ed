import Firmware.Proofs.Course
import Firmware.Proofs.Digest
import Firmware.Proofs.Probe
import Firmware.Proofs.Service
import Firmware.Proofs.Truncation
import Firmware.Source.Rehearsed
/-!
# Wording — failures are told in full

A failure acknowledgement carries the wording of an error, and has room for 128 octets.  An error that an update or a
payload fails with is one of few, and with the largest numbers in it its wording takes less than that room
(`UpdateError.size_message_le`, `MessageError.size_message_le`).  So no failure is told in part
(`failures_told_whole`).
-/
open Firmware.Task (Throws throws_pure throws_throw throws_conclude throws_bind throws_bind_of_ok throws_discard
  throws_attempt_bind throws_raising)

namespace Firmware

/-- An acknowledgement that this text is written to, in whatever parts, carries the whole of it. -/
def Ack.Carries (text : String) : Prop :=
  ∀ (id : AckId) (kind : RequestKind) (success : Bool) (parts : List String), String.join parts = text →
    (Ack.ofParts id kind success parts).message.text = text

theorem Ack.carries_of_size {text : String} (h : text.utf8ByteSize ≤ 128) : Ack.Carries text := by
  rintro id kind success parts rfl
  exact Bounded.text_ofParts_of_fits h

/-! ## The errors that are told -/

/-- The errors of an update: any, but that a URL is refused for one of its faults. -/
def UpdateError.Told : UpdateError → Prop
  | .invalidUrl reason => ∃ fault : UrlFault, reason = fault.reason
  | _ => True

def MessageError.names : List String := ["ct", "ack", "cmd", "sw", "urls", "url", "fileName", "sha256"]

/-- The errors of a payload: it is no record, or there is something wrong with one of its fields. -/
def MessageError.Told : MessageError → Prop
  | .json => True
  | .missingField name | .fieldTooLong name | .invalidField name => name ∈ names

theorem FetchError.size_message_le (e : FetchError) : e.message.utf8ByteSize ≤ 60 := by
  cases e with
  | status code =>
    have hcode : (Decimal.text code.toNat).utf8ByteSize ≤ 5 :=
      Decimal.utf8ByteSize_text_le (by decide) (Nat.lt_trans code.toNat_lt (by decide))
    have hwords : "HTTP status ".utf8ByteSize = 12 := by decide
    unfold message
    simp only [String.utf8ByteSize_append]
    omega
  | bodyTooLarge capacity =>
    have hcapacity : (Decimal.text capacity.toNat).utf8ByteSize ≤ 20 :=
      Decimal.utf8ByteSize_text_le (by decide) (Nat.lt_trans capacity.toNat_lt (by decide))
    have hwords : "response body exceeds ".utf8ByteSize + " byte buffer".utf8ByteSize = 34 := by decide
    unfold message
    simp only [String.utf8ByteSize_append]
    omega
  | network | notConnected | protocol | headerTooLarge => decide

theorem FlashError.size_message_le (e : FlashError) : e.message.utf8ByteSize ≤ 60 := by
  cases e <;> decide

/-- **The wording of an update's failure takes less than 128 octets**, whatever the numbers in it. -/
theorem UpdateError.size_message_le {e : UpdateError} (h : e.Told) : e.message.utf8ByteSize ≤ 128 := by
  have hnumber := Decimal.utf8ByteSize_text_of_uint32
  cases e with
  | invalidUrl reason =>
    obtain ⟨fault, rfl⟩ := h
    cases fault <;> decide
  | fetch e =>
    have hfetch := e.size_message_le
    have hwords : "HTTP: ".utf8ByteSize = 6 := by decide
    unfold message
    simp only [String.utf8ByteSize_append]
    omega
  | flash e =>
    have hflash := e.size_message_le
    have hwords : "flash: ".utf8ByteSize = 7 := by decide
    unfold message
    simp only [String.utf8ByteSize_append]
    omega
  | imageTooLarge declared max =>
    have hwords : "image of ".utf8ByteSize + " bytes exceeds maximum of ".utf8ByteSize ≤ 98 := by decide
    have hdeclared := hnumber declared
    have hmax := hnumber max
    unfold message
    simp only [String.utf8ByteSize_append]
    omega
  | retriesExhausted offset attempts =>
    have hwords : "chunk at ".utf8ByteSize + " failed after ".utf8ByteSize + " attempts".utf8ByteSize ≤ 98 := by decide
    have hoffset := hnumber offset
    have hattempts := hnumber attempts
    unfold message
    simp only [String.utf8ByteSize_append]
    omega
  | unexpectedBodySize offset expected received =>
    have hwords : "chunk at ".utf8ByteSize + ": expected ".utf8ByteSize + " bytes, received ".utf8ByteSize ≤ 98 := by
      decide
    have hoffset := hnumber offset
    have hexpected := hnumber expected
    have hreceived := hnumber received
    unfold message
    simp only [String.utf8ByteSize_append]
    omega
  | shortWrite offset expected written =>
    have hwords : "expected to write ".utf8ByteSize + " bytes at ".utf8ByteSize + ", but wrote ".utf8ByteSize ≤ 98 := by
      decide
    have hoffset := hnumber offset
    have hexpected := hnumber expected
    have hwritten := hnumber written
    unfold message
    simp only [String.utf8ByteSize_append]
    omega
  | nonSequential expected got =>
    have hwords : "chunk offset ".utf8ByteSize + " does not match expected ".utf8ByteSize ≤ 98 := by decide
    have hexpected := hnumber expected
    have hgot := hnumber got
    unfold message
    simp only [String.utf8ByteSize_append]
    omega
  | incompleteTransfer expected written =>
    have hwords : "only ".utf8ByteSize + " of ".utf8ByteSize + " bytes written".utf8ByteSize ≤ 98 := by decide
    have hexpected := hnumber expected
    have hwritten := hnumber written
    unfold message
    simp only [String.utf8ByteSize_append]
    omega
  | missingContentRange | malformedContentRange | emptyImage | alreadyInProgress | notReceiving | overflow |
    notValidated | downgradeRejected | activationReturned => decide

theorem MessageError.size_message_le {e : MessageError} (h : e.Told) : e.message.utf8ByteSize ≤ 128 := by
  have hnames : ∀ name ∈ names, (MessageError.missingField name).message.utf8ByteSize ≤ 128 ∧
      (MessageError.fieldTooLong name).message.utf8ByteSize ≤ 128 ∧
      (MessageError.invalidField name).message.utf8ByteSize ≤ 128 := by
    decide
  cases e with
  | json => decide
  | missingField name => exact (hnames name h).1
  | fieldTooLong name => exact (hnames name h).2.1
  | invalidField name => exact (hnames name h).2.2

/-! ## What a payload fails with -/

namespace Inbound

def FailsTold {α : Type} (step : Except MessageError α) : Prop := ∀ e, step = .error e → e.Told

section Steps

variable {α β : Type}

theorem fails_bind {step : Except MessageError α} {next : α → Except MessageError β} (h : FailsTold step)
    (hnext : ∀ a, FailsTold (next a)) : FailsTold (step >>= next) := fun e he => by
  rcases bind_eq_error_iff.1 he with herror | ⟨a, -, herror⟩
  · exact h e herror
  · exact hnext a e herror

theorem fails_map {step : Except MessageError α} (h : FailsTold step) (f : α → β) : FailsTold (step.map f) :=
  fun e he => by
    cases step with
    | error why =>
      cases he
      exact h _ rfl
    | ok a => cases he

theorem fails_pure (a : α) : FailsTold (pure a : Except MessageError α) := fun _ he => by cases he

theorem fails_require {name : String} (hname : name ∈ MessageError.names) (a? : Option α) :
    FailsTold (require name a?) := fun _ he => by
  obtain ⟨-, rfl⟩ := require_eq_error_iff.1 he
  exact hname

theorem fails_fit {name : String} (hname : name ∈ MessageError.names) (limit : Nat) (text : String) :
    FailsTold (fit limit name text) := fun _ he => by
  obtain ⟨-, rfl⟩ := fit_eq_error_iff.1 he
  exact hname

end Steps

namespace Envelope

variable (e : Envelope)

theorem fails_ackId : FailsTold e.ackId := by
  unfold ackId
  split
  · exact fails_pure _
  split
  · exact fails_pure _
  · exact fails_map (fails_fit (by decide) 64 _) some

theorem fails_command : FailsTold e.command :=
  fails_bind (fails_require (by decide) _) fun _ => fails_bind (fails_fit (by decide) 128 _) fun _ => fails_pure _

theorem fails_digest (download : Download) : FailsTold download.digest := by
  unfold Download.digest
  split
  · exact fails_pure _
  split
  · exact fails_pure _
  · intro e he
    cases he
    have hname : "sha256" ∈ MessageError.names := by decide
    exact hname

theorem fails_offer (id : Option AckId) : FailsTold (e.offer id) := by
  rw [offer_eq_bind]
  exact fails_bind (fails_require (by decide) _) fun version =>
    fails_bind (fails_require (by decide) _) fun download =>
    fails_bind (fails_digest download) fun digest =>
    fails_bind (fails_require (by decide) _) fun address =>
    fails_bind (fails_fit (by decide) maxUrlLength _) fun url =>
    fails_bind (fails_fit (by decide) 128 _) fun fileName =>
    fails_bind (fails_fit (by decide) 32 _) fun version => fails_pure _

end Envelope

def failure? : Except MessageError Inbound → Option MessageError
  | .error e | .ok (.malformed _ _ e) => some e
  | .ok _ => none

theorem failure?_settle (kind : RequestKind) (id : Option AckId) (r : Except MessageError Inbound) :
    failure? (settle kind id r) = failure? r := by
  cases r with
  | ok message => rfl
  | error e => cases id <;> rfl

theorem told_settle {α : Type} {step : Except MessageError α} {f : α → Inbound} (h : FailsTold step)
    (hf : ∀ a, failure? (.ok (f a)) = none) (kind : RequestKind) (id : Option AckId) :
    ∀ why ∈ failure? (settle kind id (step.map f)), why.Told := by
  rw [failure?_settle]
  cases step with
  | error e =>
    rintro why ⟨⟩
    exact h e rfl
  | ok a =>
    intro why hwhy
    rw [Except.map, hf] at hwhy
    cases hwhy

theorem told_bind {α : Type} {step : Except MessageError α} {next : α → Except MessageError Inbound}
    (h : FailsTold step) (hnext : ∀ a, ∀ why ∈ failure? (next a), why.Told) :
    ∀ why ∈ failure? (step >>= next), why.Told := by
  cases step with
  | error e =>
    rintro why ⟨⟩
    exact h e rfl
  | ok a => exact hnext a

/-- **What a payload fails with is told.** -/
theorem told_of_parse (payload : Bytes) : ∀ why ∈ failure? (parse payload), why.Told := by
  unfold parse
  split
  · rename_i e _
    refine told_bind (fails_require (by decide) _) fun type => told_bind e.fails_ackId fun id => ?_
    split
    · exact told_settle e.fails_command (fun _ => rfl) _ _
    split
    · exact told_settle (e.fails_offer id) (fun _ => rfl) _ _
    · rintro why ⟨⟩
  · rintro why ⟨⟩
    trivial

end Inbound

/-! ## What a download fails with -/

section Download

variable {C F : Type}

namespace Download

variable [RangeSource C]

theorem throws_probe (resource : String) (maxSize : UInt32) :
    Throws UpdateError.Told (probe resource maxSize : Task C F UpdateError UInt32) := by
  unfold probe
  refine throws_bind_of_ok (fun d => ⟨_, _, rfl⟩) fun fetched => ?_
  simp only [Task.throw_bind]
  split
  · exact throws_throw trivial
  split
  · exact throws_throw trivial
  split
  · split
    · exact throws_throw trivial
    · refine throws_bind (throws_conclude fun e he => ?_) fun total => ?_
      · rw [(ImageSize.ofContentRange_eq_error_iff.1 he).1]
        trivial
      split
      · exact throws_throw trivial
      split
      · exact throws_throw trivial
      · exact throws_pure _
  · exact throws_throw trivial

theorem throws_request (url : ImageUrl) (range : ByteRange) (buffer : Bytes) :
    Throws UpdateError.Told (request url range buffer : Task C F UpdateError Reply) := by
  unfold request
  refine throws_bind_of_ok (fun d => ⟨_, _, rfl⟩) fun fetched => ?_
  simp only [Task.throw_bind]
  split
  · split
    · exact throws_throw trivial
    split
    · exact throws_throw trivial
    · exact throws_pure _
  · split
    · exact throws_throw trivial
    · exact throws_pure _

theorem throws_fetchChunk (u : UpdateSettings) (url : ImageUrl) (range : ByteRange) (retries : Nat) :
    ∀ (attempts : UInt32) (buffer : Bytes),
      Throws UpdateError.Told (fetchChunk u url range attempts buffer retries : Task C F UpdateError Bytes) := by
  induction retries with
  | zero =>
    intro attempts buffer
    refine throws_bind (throws_request _ _ _) fun reply => ?_
    cases reply with
    | received buffer => exact throws_pure _
    | interrupted buffer => exact throws_throw trivial
  | succ retries ih =>
    intro attempts buffer
    refine throws_bind (throws_request _ _ _) fun reply => ?_
    cases reply with
    | received buffer => exact throws_pure _
    | interrupted buffer =>
      refine throws_bind_of_ok (fun d => ?_) fun _ => ih _ _
      obtain ⟨-, -, d', hrun, -⟩ := reconnect_eq_ok (ε := UpdateError) u url.host.text d
      exact ⟨(), d', hrun⟩

end Download

variable [FlashDevice F]

namespace Transfer

theorem throws_begin (file : ReceiveFile) : Throws UpdateError.Told (begin file : Task C F UpdateError Unit) :=
  fun _ _ _ h => by
    obtain ⟨-, rfl | rfl⟩ | ⟨-, fault, rfl⟩ := begin_eq_error h <;> trivial

theorem throws_write (offset : UInt32) (block : Bytes) :
    Throws UpdateError.Told (write offset block : Task C F UpdateError UInt32) := by
  unfold write
  refine throws_bind_of_ok (fun d => ⟨_, _, rfl⟩) fun transfer => ?_
  simp only [Task.throw_bind]
  split
  · split
    · exact throws_throw trivial
    split
    · exact throws_throw trivial
    refine throws_attempt_bind (P := fun _ => True) (fun _ _ _ _ => trivial) (fun e _ => ?_) fun taken => ?_
    · exact throws_bind_of_ok (fun d => ⟨_, _, rfl⟩) fun _ => throws_throw trivial
    · simp only []
      split
      · exact throws_bind_of_ok (fun d => ⟨_, _, rfl⟩) fun _ => throws_throw trivial
      · exact throws_bind_of_ok (fun d => ⟨_, _, rfl⟩) fun _ => throws_pure _
  · exact throws_throw trivial

theorem throws_finish : Throws UpdateError.Told (finish : Task C F UpdateError Unit) := fun _ _ _ h => by
  obtain ⟨-, rfl | ⟨expected, written, rfl⟩⟩ | ⟨-, -, fault, rfl⟩ := finish_eq_error h <;> trivial

end Transfer

variable [RangeSource C]

namespace Download

theorem throws_fetchAndWrite (u : UpdateSettings) (url : ImageUrl) (total index : UInt32) (range : ByteRange)
    (buffer : Bytes) :
    Throws UpdateError.Told (fetchAndWrite u url total index range buffer : Task C F UpdateError Bytes) := by
  by_cases hroom : range.size.toNat ≤ buffer.length
  · rw [fetchAndWrite_of_room hroom]
    refine throws_bind (throws_fetchChunk _ _ _ _ _ _) fun chunk => ?_
    refine throws_bind_of_ok (fun d => ⟨_, _, report_apply u total index range d⟩) fun _ => ?_
    exact throws_bind (throws_discard (Transfer.throws_write _ _)) fun _ => throws_pure _
  · rw [fetchAndWrite_of_no_room (Nat.lt_of_not_le hroom)]
    exact throws_throw trivial

theorem throws_runPlan (u : UpdateSettings) (url : ImageUrl) (plan : ChunkPlan) :
    ∀ (index : UInt32) (buffer : Bytes),
      Throws UpdateError.Told (runPlan u url plan index buffer : Task C F UpdateError Unit) := by
  induction plan using ChunkPlan.ranges.induct with
  | case1 plan hstep =>
    intro index buffer
    rw [runPlan_of_none _ _ hstep]
    exact throws_pure _
  | case2 plan range rest hstep ih =>
    intro index buffer
    rw [runPlan_of_some _ _ hstep]
    exact throws_bind (throws_fetchAndWrite _ _ _ _ _ _) fun _ => ih _ _

end Download

namespace Update

theorem throws_receive (u : UpdateSettings) (url : ImageUrl) (digest : Option ImageDigest) :
    Throws UpdateError.Told (receive u url digest : Task C F UpdateError UInt32) :=
  throws_bind (throws_raising fun _ => trivial) fun _ =>
  throws_bind (Download.throws_probe _ _) fun _ =>
  throws_bind (Transfer.throws_begin _) fun _ =>
  throws_bind (Download.throws_runPlan _ _ _ _ _) fun _ =>
  throws_bind_of_ok (fun _ => ⟨_, _, rfl⟩) fun _ =>
  throws_bind_of_ok (fun _ => ⟨_, _, rfl⟩) fun _ =>
  throws_bind Transfer.throws_finish fun _ =>
  throws_bind_of_ok (fun _ => ⟨_, _, rfl⟩) fun _ => throws_pure _

/-- **Whatever a download fails with is told.** -/
theorem throws_download (u : UpdateSettings) (offer : Offer) :
    Throws UpdateError.Told (download u offer : Task C F UpdateError UInt32) := by
  unfold download
  split
  · rename_i fault _
    exact throws_throw ⟨fault, rfl⟩
  refine throws_bind_of_ok (fun _ => ⟨_, _, rfl⟩) fun _ =>
    throws_attempt_bind (throws_receive _ _ _) (fun e he => ?_) fun total => ?_
  · refine throws_bind_of_ok (fun _ => ⟨_, _, rfl⟩) fun _ => ?_
    refine throws_bind_of_ok (fun d => ?_) fun _ => throws_throw he
    obtain ⟨d', hrun⟩ := Transfer.abandon_eq_ok (ε := UpdateError) d
    exact ⟨(), d', hrun⟩
  · exact throws_bind_of_ok (fun _ => ⟨_, _, rfl⟩) fun _ => throws_pure _

end Update
end Download

/-! ## What is told -/

namespace Service

variable {C F : Type}

/-- After these calls the run ends with a failure acknowledgement that carries the whole of the text. -/
def TellsFailure (task : Task C F DeviceError Unit) (d : Device C F) (calls : List Call) (id : AckId)
    (kind : RequestKind) (text : String) : Prop :=
  ∃ ack outcome, (task.after d).calls = calls ++ [.acknowledge ack outcome] ∧ ack.id = id ∧ ack.kind = kind ∧
    ack.success = false ∧ ack.message.text = text

theorem tellsFailure_answer (id : AckId) (kind : RequestKind) {text : String} (h : Ack.Carries text) (d : Device C F) :
    TellsFailure (answer (some id) kind false text) d d.calls id kind text := by
  rw [TellsFailure, answer, Task.after_raising, Device.after_acknowledge]
  exact ⟨_, _, Device.calls_note _ _, rfl, rfl, rfl, h id kind false [text] (by simp)⟩

theorem tellsFailure_giveUp (id : AckId) {e : UpdateError} (h : e.Told) (d : Device C F) :
    TellsFailure (giveUp e (some id)) d (d.calls ++ [.tell (.failed e)]) id .update e.message := by
  have htold := tellsFailure_answer id .update (Ack.carries_of_size (UpdateError.size_message_le h))
    (d.note (.tell (.failed e)))
  rw [Device.calls_note] at htold
  exact htold

variable [RangeSource C] [FlashDevice F]

theorem tellsFailure_malformed (s : Service) (kind : RequestKind) (id : AckId) {why : MessageError} (h : why.Told)
    (d : Device C F) : TellsFailure (s.act (.malformed kind id why)) d d.calls id kind why.message := by
  rw [TellsFailure, act, Task.after_bind_throw]
  exact tellsFailure_answer id kind (Ack.carries_of_size (MessageError.size_message_le h)) d

/-- An offer ends with this failure, at this device: it is refused as a downgrade, or it is admitted and its download
fails. -/
inductive FailsWith (s : Service) (offer : Offer) (d : Device C F) : UpdateError → Device C F → Prop
  | refused (other : offer.version.text ≠ s.running) (refused : ¬ s.Admits offer) :
    FailsWith s offer d .downgradeRejected d
  | download {e : UpdateError} {m : Device C F} (admitted : s.Admits offer)
      (fails : Update.download s.settings offer d = .error e m) : FailsWith s offer d e m

variable {s : Service} {offer : Offer} {d m : Device C F} {e : UpdateError}

theorem FailsWith.told (h : s.FailsWith offer d e m) : e.Told := by
  cases h with
  | refused => trivial
  | download _ hfails => exact Update.throws_download s.settings offer d e m hfails

/-- **An offer that fails is acknowledged with the whole of its failure.** -/
theorem FailsWith.tellsFailure (h : s.FailsWith offer d e m) {id : AckId} (hid : offer.ackId = some id) :
    TellsFailure (s.handleOffer offer) d (m.calls ++ [.tell (.failed e)]) id .update e.message := by
  have htold := h.told
  cases h with
  | refused hother hrefused =>
    rw [handleOffer_of_refused hother hrefused, hid]
    exact tellsFailure_giveUp id htold d
  | download hadmits hfails =>
    have hafter : (s.handleOffer offer : Task C F DeviceError Unit).after d = (giveUp e (some id)).after m := by
      have hattempt : (Task.attempt (Update.download s.settings offer) : Task C F DeviceError _) d =
          .ok (.error e) m := by
        rw [Task.attempt_apply, Task.result_of_error hfails, Task.after_of_error hfails]
      rw [handleOffer_of_admits hadmits, perform, Task.after_bind_of_ok hattempt, hid]
    rw [TellsFailure, hafter]
    exact tellsFailure_giveUp id htold m

end Service

/-- **Failures are told in full.**  Whatever numbers stand in it, the wording of an error that is told fits into an
acknowledgement, in whatever parts it is written.  A payload fails with nothing else, and so do a download and the
refusal of a downgrade.  A request that cannot be decoded and an offer that fails end with a failure acknowledgement,
and that carries the whole wording. -/
theorem failures_told_whole :
    (∀ e : UpdateError, e.Told → Ack.Carries e.message) ∧ (∀ why : MessageError, why.Told → Ack.Carries why.message) ∧
    (∀ payload, ∀ why ∈ Inbound.failure? (Inbound.parse payload), why.Told) ∧
    ∀ {C F : Type} [RangeSource C] [FlashDevice F] (d : Device C F),
      (∀ u offer e m, Update.download u offer d = .error e m → e.Told) ∧
      ∀ (s : Service) (payload : Bytes) (id : AckId),
        (∀ kind why, Inbound.parse payload = .ok (.malformed kind id why) →
          Service.TellsFailure (s.handle payload) d d.calls id kind why.message) ∧
        ∀ offer e m, Inbound.parse payload = .ok (.offer offer) → offer.ackId = some id → s.FailsWith offer d e m →
          e.Told ∧ Service.TellsFailure (s.handle payload) d (m.calls ++ [.tell (.failed e)]) id .update e.message := by
  refine ⟨fun _ h => Ack.carries_of_size (UpdateError.size_message_le h),
    fun _ h => Ack.carries_of_size (MessageError.size_message_le h), Inbound.told_of_parse, fun d => ⟨?_, ?_⟩⟩
  · intro u offer e m hfails
    exact Update.throws_download u offer d e m hfails
  · intro s payload id
    refine ⟨fun kind why hparse => ?_, fun offer e m hparse hid hfails => ⟨hfails.told, ?_⟩⟩
    · have hwhy : why.Told := Inbound.told_of_parse payload why (by rw [hparse]; rfl)
      simp only [Service.handle, hparse]
      exact Service.tellsFailure_malformed s kind id hwhy d
    · simp only [Service.handle, hparse]
      exact hfails.tellsFailure hid

def plainRequest : Bytes :=
  Bytes.ofText "\x7b\"ct\":1,\"ack\":\"a\",\"sw\":\"2\",\"urls\":[\x7b\"url\":\"https://h/f\"\x7d]\x7d"

def unserved : Device RehearsedSource FaultyPartition where
  source := { fetches := [.answer 404 none [] 0] }
  flash := .sound {}
  uplink := { topic := .empty }

theorem unserved_told_whole :
    ∃ m : Device RehearsedSource FaultyPartition, Service.TellsFailure (({} : Service).handle plainRequest) unserved
      (m.calls ++ [.tell (.failed (.fetch (.status 404)))]) ⟨"a", by decide⟩ .update "HTTP: HTTP status 404" := by
  let offer : Offer :=
    { url := ⟨"https://h/f", by decide⟩, fileName := .empty, version := ⟨"2", by decide⟩,
      ackId := some ⟨"a", by decide⟩, digest := none }
  have hparse : Inbound.parse plainRequest = .ok (.offer offer) := by decide +kernel
  have hresult : (Update.download {} offer : Task RehearsedSource FaultyPartition _ _).result unserved =
      .error (.fetch (.status 404)) := by decide +kernel
  have hadmits : ({} : Service).Admits offer := ⟨by decide, fun _ => by decide⟩
  obtain ⟨-, -, -, htold⟩ := failures_told_whole
  obtain ⟨-, hoffers⟩ := (htold unserved).2 {} plainRequest ⟨"a", by decide⟩
  exact ⟨_, (hoffers offer _ _ hparse rfl (.download hadmits (Task.eq_error_of_result hresult))).2⟩

end Firmware
