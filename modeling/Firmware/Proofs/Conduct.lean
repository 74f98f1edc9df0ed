import Mathlib.Data.List.Basic
import Firmware.Proofs.Service
/-!
# Conduct — what goes out while a message is handled

A request that carries an id is acknowledged once, under this id and in its kind, and nothing else is acknowledged.  A
success is acknowledged only where there is one, and an image is activated only after its success was acknowledged.
-/
namespace Firmware

/-- The id and the kind of the acknowledgement that a payload asks for. -/
def Inbound.requested? (payload : Bytes) : Option (AckId × RequestKind) :=
  match parse payload with
  | .ok message => message.request?
  | .error _ => none

namespace Service

theorem filterMap_ack?_of_aside {calls : List Call} (h : ∀ call ∈ calls, call.isAside = true) :
    calls.filterMap Call.ack? = [] :=
  List.filterMap_eq_nil_iff.2 fun call hcall => Call.ack?_of_isAside (h call hcall)

theorem filterMap_ack?_answers (request : Option (AckId × RequestKind)) (success : Bool) (text : String)
    (outcome : Except AckError Publication) :
    (answers request success text outcome).filterMap Call.ack? =
      (request.map fun (id, kind) => Ack.ofText id kind success text).toList := by
  cases request <;> rfl

theorem activate_notMem_of_aside {calls : List Call} (h : ∀ call ∈ calls, call.isAside = true)
    (answer : Except FlashError Unit) : Call.activate answer ∉ calls := fun hmem => by
  have := h _ hmem
  cases this

theorem acknowledge_notMem_of_aside {calls : List Call} (h : ∀ call ∈ calls, call.isAside = true) (ack : Ack)
    (outcome : Except AckError Publication) : Call.acknowledge ack outcome ∉ calls := fun hmem => by
  have := h _ hmem
  cases this

theorem activate_notMem_answers (request : Option (AckId × RequestKind)) (success : Bool) (text : String)
    (outcome : Except AckError Publication) (answer : Except FlashError Unit) :
    Call.activate answer ∉ answers request success text outcome := by
  cases request <;> simp [answers]

variable {C : Type} [RangeSource C]

/-- **The calls of a performance**: those of the download, the acknowledgement of its success, the pause, one
activation, and what discarding the image takes if it is refused. -/
theorem Performed.calls {s : Service} {offer : Offer} {payload : Bytes} {d m moment m' : Device C FaultyPartition}
    {total : UInt32} {e : UpdateError} (h : Performed s offer (s.handle payload) d total m moment e m') :
    ∃ downloading outcome rest,
      m.calls = d.calls ++ downloading ∧ (∀ call ∈ downloading, call.isAside = true) ∧
      moment.calls = d.calls ++ (downloading ++
        answers (offer.ackId.map (·, .update)) true "OK" outcome ++ [.wait s.settings.ackSettleMs]) ∧
      (s.handle payload).made d = downloading ++ answers (offer.ackId.map (·, .update)) true "OK" outcome ++
        [.wait s.settings.ackSettleMs] ++ .activate (Device.activate.result moment) :: rest ∧
      (∀ call ∈ rest, call.isAside = true) := by
  obtain ⟨hdownloading, haside⟩ := Update.calls_download s.settings offer d
  rw [Task.after_of_ok h.downloaded] at hdownloading
  obtain ⟨outcome, hmoment⟩ := h.activation.acknowledged
  have hanswers : ((offer.ackId.map fun id => Ack.ofText id .update true "OK").map
      fun ack => Call.acknowledge ack outcome).toList = answers (offer.ackId.map (·, .update)) true "OK" outcome := by
    cases offer.ackId <;> rfl
  rw [hanswers, hdownloading, List.append_assoc, List.append_assoc, ← List.append_assoc _ _ [_]] at hmoment
  have hends : ((s.handle payload).after d).calls = m'.calls ++ [.tell (.failed e)] := by
    rw [Task.after_of_ok h.ends, Device.calls_note]
  rcases hactivate : Device.activate moment with ⟨_, m₁⟩ | ⟨fault, m₁⟩
  · obtain ⟨-, rfl⟩ := h.activation.selected m₁ hactivate
    obtain ⟨hcalls, -⟩ := Device.calls_of_activate hactivate
    refine ⟨_, outcome, [.tell (.failed e)], hdownloading, haside, ?_, Task.made_of_calls ?_, ?_⟩
    · simpa only [List.append_assoc] using hmoment
    · rw [hends, hcalls, hmoment, Task.result_of_ok hactivate]
      simp only [List.append_assoc, List.cons_append, List.nil_append]
    · intro call hcall
      rw [List.mem_singleton.1 hcall]
      rfl
  · obtain ⟨-, rfl⟩ := h.activation.refused fault m₁ hactivate
    obtain ⟨habandon, hinward⟩ : ((Transfer.abandon : Task C FaultyPartition DeviceError Unit).after m₁).calls =
        m₁.calls ++ (Transfer.abandon : Task C FaultyPartition DeviceError Unit).made m₁ ∧
        ∀ call ∈ (Transfer.abandon : Task C FaultyPartition DeviceError Unit).made m₁, call.isInward = true :=
      Transfer.calls_abandon m₁
    refine ⟨_, outcome,
      (Transfer.abandon : Task C FaultyPartition DeviceError Unit).made m₁ ++ [.tell (.failed e)],
      hdownloading, haside, ?_, Task.made_of_calls ?_, ?_⟩
    · simpa only [List.append_assoc] using hmoment
    · rw [hends, habandon, Device.calls_of_activate_error hactivate, hmoment, Task.result_of_error hactivate]
      simp only [List.append_assoc, List.cons_append, List.nil_append]
    · intro call hcall
      rcases List.mem_append.1 hcall with hcall | hcall
      · exact Call.isAside_of_isInward (hinward call hcall)
      · rw [List.mem_singleton.1 hcall]
        rfl

theorem Performed.acks {s : Service} {offer : Offer} {payload : Bytes} {d m moment m' : Device C FaultyPartition}
    {total : UInt32} {e : UpdateError} (h : Performed s offer (s.handle payload) d total m moment e m') :
    ((s.handle payload).made d).filterMap Call.ack? =
      (offer.ackId.map fun id => Ack.ofText id .update true "OK").toList := by
  obtain ⟨downloading, outcome, rest, -, haside, -, hmade, hrest⟩ := h.calls
  have htail : (Call.activate (Device.activate.result moment) :: rest).filterMap Call.ack? = [] := by
    rw [List.filterMap_cons_none rfl]
    exact filterMap_ack?_of_aside hrest
  rw [hmade, List.filterMap_append, htail, List.append_nil, List.filterMap_append, List.filterMap_cons_none rfl,
    List.filterMap_nil, List.append_nil, List.filterMap_append, filterMap_ack?_of_aside haside, List.nil_append,
    filterMap_ack?_answers, Option.map_map]
  rfl

theorem made_of_undecodable {s : Service} {payload : Bytes} {d : Device C FaultyPartition} {e : MessageError}
    (h : s.handle payload d = .error (.message e) d) : (s.handle payload).made d = [] :=
  Task.made_of_calls (by rw [Task.after_of_error h, List.append_nil])

theorem acks_of_handle (s : Service) (payload : Bytes) (d : Device C FaultyPartition) :
    (((s.handle payload).made d).filterMap Call.ack?).map (fun ack => (ack.id, ack.kind)) =
      (Inbound.requested? payload).toList := by
  cases course_of_handle s payload d with
  | undecodable e decoded ends =>
    rw [made_of_undecodable ends]
    simp only [Inbound.requested?, decoded]
    rfl
  | answered message decoded answer =>
    obtain ⟨asides, success, text, outcome, hcalls, haside, -⟩ := answer.calls
    rw [Task.made_of_calls hcalls, List.filterMap_append, filterMap_ack?_of_aside haside, List.nil_append,
      filterMap_ack?_answers]
    simp only [Inbound.requested?, decoded]
    cases message.request? <;> rfl
  | performed offer decoded total m moment e m' performance =>
    rw [performance.acks]
    simp only [Inbound.requested?, decoded, Inbound.request?]
    cases offer.ackId <;> rfl

/-- A verified image of `offer` was downloaded by the calls `downloading`. -/
structure Downloaded (s : Service) (payload : Bytes) (d : Device C FaultyPartition) (offer : Offer)
    (downloading : List Call) : Prop where
  decoded : Inbound.parse payload = .ok (.offer offer)
  verified : ∃ total m, Update.download s.settings offer d = .ok total m ∧ m.calls = d.calls ++ downloading ∧
    Update.Verified m

theorem success_of_handle {s : Service} {payload : Bytes} {d : Device C FaultyPartition} {ack : Ack}
    {outcome : Except AckError Publication} (hmem : Call.acknowledge ack outcome ∈ (s.handle payload).made d)
    (hsuccess : ack.success = true) :
    (∃ message, Inbound.parse payload = .ok message ∧ s.Grants message) ∨
      ∃ offer downloading answer rest, Downloaded s payload d offer downloading ∧
        (s.handle payload).made d = downloading ++
          .acknowledge ack outcome :: .wait s.settings.ackSettleMs :: .activate answer :: rest := by
  cases course_of_handle s payload d with
  | undecodable e decoded ends =>
    rw [made_of_undecodable ends] at hmem
    cases hmem
  | answered message decoded answer =>
    obtain ⟨asides, success, text, outcome', hcalls, haside, hgranted⟩ := answer.calls
    rw [Task.made_of_calls hcalls] at hmem
    refine .inl ⟨message, decoded, ?_⟩
    rcases List.mem_append.1 hmem with hmem | hmem
    · exact absurd hmem (acknowledge_notMem_of_aside haside _ _)
    · cases hrequest : message.request? with
      | none =>
        rw [hrequest] at hmem
        cases hmem
      | some request =>
        rw [hrequest] at hmem
        obtain ⟨rfl, -⟩ := Call.acknowledge.inj (List.mem_singleton.1 hmem)
        exact hgranted hsuccess
  | performed offer decoded total m moment e m' performance =>
    obtain ⟨downloading, outcome', rest, hm, haside, -, hmade, hrest⟩ := performance.calls
    obtain ⟨hverified, -⟩ := Update.provenance_of_download performance.downloaded
    have hdownloaded : Downloaded s payload d offer downloading :=
      ⟨decoded, total, m, performance.downloaded, hm, hverified⟩
    refine .inr ⟨offer, downloading, Device.activate.result moment, rest, hdownloaded, ?_⟩
    rw [hmade] at hmem ⊢
    cases hid : offer.ackId with
    | none =>
      rw [hid] at hmem
      exact absurd hmem (by simp [answers, acknowledge_notMem_of_aside haside, acknowledge_notMem_of_aside hrest])
    | some id =>
      rw [hid] at hmem
      have hack : Call.acknowledge ack outcome = .acknowledge (.ofText id .update true "OK") outcome' := by
        simpa [answers, acknowledge_notMem_of_aside haside, acknowledge_notMem_of_aside hrest] using hmem
      rw [hack]
      simp only [answers, Option.map_some, Option.toList_some, List.append_assoc, List.cons_append, List.nil_append]

theorem prefix_of_activate {s : Service} {payload : Bytes} {d : Device C FaultyPartition} {before rest : List Call}
    {answer : Except FlashError Unit} (h : (s.handle payload).made d = before ++ .activate answer :: rest) :
    ∃ offer downloading outcome, Downloaded s payload d offer downloading ∧
      before = downloading ++ answers (offer.ackId.map (·, .update)) true "OK" outcome ++
        [.wait s.settings.ackSettleMs] := by
  have hmem : Call.activate answer ∈ (s.handle payload).made d := by
    rw [h]
    simp
  cases course_of_handle s payload d with
  | undecodable e decoded ends =>
    rw [made_of_undecodable ends] at hmem
    cases hmem
  | answered message decoded answered =>
    obtain ⟨asides, success, text, outcome, hcalls, haside, -⟩ := answered.calls
    rw [Task.made_of_calls hcalls] at hmem
    rcases List.mem_append.1 hmem with hmem | hmem
    · exact absurd hmem (activate_notMem_of_aside haside _)
    · exact absurd hmem (activate_notMem_answers _ _ _ _ _)
  | performed offer decoded total m moment e m' performance =>
    obtain ⟨downloading, outcome, rest', hm, haside, -, hmade, hrest⟩ := performance.calls
    obtain ⟨hverified, -⟩ := Update.provenance_of_download performance.downloaded
    refine ⟨offer, downloading, outcome, ⟨decoded, total, m, performance.downloaded, hm, hverified⟩, ?_⟩
    -- the performance activates once, so its calls split at an activation in one way
    have hfront : Call.activate answer ∉ downloading ++ answers (offer.ackId.map (·, .update)) true "OK" outcome ++
        [.wait s.settings.ackSettleMs] := by
      simp [activate_notMem_of_aside haside, activate_notMem_answers]
    rw [hmade] at h
    exact ((List.append_cons_inj_of_notMem hfront (activate_notMem_of_aside hrest _)).1 h).1.symm

theorem error_of_handle {s : Service} {payload : Bytes} {d : Device C FaultyPartition} {e : DeviceError}
    (h : (s.handle payload).result d = .error e) : (∃ why, e = .message why) ∨ ∃ why, e = .ack why := by
  cases course_of_handle s payload d with
  | undecodable e' decoded ends =>
    rw [Task.result_of_error ends] at h
    cases h
    exact .inl ⟨e', rfl⟩
  | answered message decoded answer => exact answer.ends e h
  | performed offer decoded total m moment e' m' performance =>
    rw [Task.result_of_ok performance.ends] at h
    cases h

/-- **Every request is answered once and truthfully**, from any state of the device and whatever its parts answer.
A success is either granted on the spot or stands between a verified image and its activation; every activation stands
there, too; and the handling fails only on a message or on an acknowledgement. -/
theorem answers_once_and_truthfully (s : Service) (payload : Bytes) (d : Device C FaultyPartition) :
    (((s.handle payload).made d).filterMap Call.ack?).map (fun ack => (ack.id, ack.kind)) =
        (Inbound.requested? payload).toList ∧
      (∀ ack outcome, Call.acknowledge ack outcome ∈ (s.handle payload).made d → ack.success = true →
        (∃ message, Inbound.parse payload = .ok message ∧ s.Grants message) ∨
        ∃ offer downloading answer rest, Downloaded s payload d offer downloading ∧
          (s.handle payload).made d = downloading ++
            .acknowledge ack outcome :: .wait s.settings.ackSettleMs :: .activate answer :: rest) ∧
      (∀ before answer rest, (s.handle payload).made d = before ++ .activate answer :: rest →
        ∃ offer downloading outcome, Downloaded s payload d offer downloading ∧
          before = downloading ++ answers (offer.ackId.map (·, .update)) true "OK" outcome ++
            [.wait s.settings.ackSettleMs]) ∧
      (∀ e, (s.handle payload).result d = .error e → (∃ why, e = .message why) ∨ ∃ why, e = .ack why) :=
  ⟨acks_of_handle s payload d, fun _ _ => success_of_handle, fun _ _ _ => prefix_of_activate,
    fun _ => error_of_handle⟩

end Service
end Firmware
