import Firmware.Proofs.Update
/-!
# Service — the two ways a message is handled

A message is either answered or performed.  An answer ends what was done on the side; a performance is a download that
ended well, the acknowledgement of its success, and the activation.  Which acknowledgements go out, what is activated
and how the handling ends are read off these two (`course_of_handle`).
-/
namespace Firmware

def Call.ack? : Call → Option Ack
  | .acknowledge ack _ => some ack
  | _ => none

theorem Call.ack?_of_isAside {call : Call} (h : call.isAside = true) : call.ack? = none := by
  cases call <;> first | rfl | cases h

def Inbound.request? : Inbound → Option (AckId × RequestKind)
  | .command _ _ id => id.map (·, .command)
  | .offer o => o.ackId.map (·, .update)
  | .malformed kind id _ => some (id, kind)
  | .other _ => none

namespace Service

variable {C F : Type}

/-- The requests that are granted on the spot: a ping, a light to switch, an offer of the running version. -/
def Grants (s : Service) : Inbound → Prop
  | .command .ping _ _ | .command (.led ..) _ _ => True
  | .offer offer => offer.version.text = s.running
  | _ => False

def answers (request : Option (AckId × RequestKind)) (success : Bool) (text : String)
    (outcome : Except AckError Publication) : List Call :=
  (request.map fun (id, kind) => .acknowledge (.ofText id kind success text) outcome).toList

/-- A run that ends with the answer to `request`; a success is answered only if `granted`. -/
structure Answered (request : Option (AckId × RequestKind)) (granted : Prop) (task : Task C F DeviceError Unit)
    (d : Device C F) : Prop where
  calls : ∃ asides success text outcome,
    (task.after d).calls = d.calls ++ (asides ++ answers request success text outcome) ∧
    (∀ call ∈ asides, call.isAside = true) ∧ (success = true → granted)
  ends : ∀ e, task.result d = .error e → (∃ why, e = .message why) ∨ ∃ why, e = .ack why

theorem answered_answer (id : Option AckId) (kind : RequestKind) (success : Bool) (text : String) {granted : Prop}
    (hgranted : success = true → granted) (d : Device C F) :
    Answered (id.map (·, kind)) granted (answer id kind success text) d := by
  cases id with
  | none => exact ⟨⟨[], success, text, .error .encode, by simp [answers, answer, Task.after], by simp, hgranted⟩,
      fun e h => by cases h⟩
  | some id =>
    rcases hpublish : d.uplink.publish (.ofText id kind success text) with ⟨outcome, uplink⟩
    have hrun : (answer (some id) kind success text : Task C F DeviceError Unit) d =
        Task.raising .ack (Task.conclude (outcome.map fun _ => ()))
          ({ d with uplink }.note (.acknowledge (.ofText id kind success text) outcome)) := by
      simp only [answer, Task.raising, Device.acknowledge, hpublish]
    refine ⟨⟨[], success, text, outcome, ?_, by simp, hgranted⟩, fun e h => ?_⟩
    · unfold Task.after
      rw [hrun]
      cases outcome <;> exact Device.calls_note _ _
    · unfold Task.result at h
      rw [hrun] at h
      cases outcome with
      | error why =>
        cases h
        exact .inr ⟨why, rfl⟩
      | ok _ => cases h

theorem Answered.after_aside {α : Type} {request : Option (AckId × RequestKind)} {granted : Prop}
    {task : Task C F DeviceError α} {next : α → Task C F DeviceError Unit} {d m : Device C F} {a : α}
    (hrun : task d = .ok a m) (hm : Device.MadeOnly (fun call => call.isAside = true) d m)
    (h : Answered request granted (next a) m) : Answered request granted (task >>= next) d := by
  obtain ⟨before, hbefore, haside⟩ := hm
  obtain ⟨⟨asides, success, text, outcome, hcalls, hasides, hgranted⟩, hends⟩ := h
  refine ⟨⟨before ++ asides, success, text, outcome, ?_, ?_, hgranted⟩, fun e he => hends e ?_⟩
  · unfold Task.after at hcalls ⊢
    rw [Task.bind_of_ok hrun, hcalls, hbefore]
    simp only [List.append_assoc]
  · intro call hcall
    rcases List.mem_append.1 hcall with hcall | hcall
    · exact haside call hcall
    · exact hasides call hcall
  · unfold Task.result at he ⊢
    rw [Task.bind_of_ok hrun] at he
    exact he

theorem Answered.after_tell {request : Option (AckId × RequestKind)} {granted : Prop} {event : Event}
    {next : Unit → Task C F DeviceError Unit} {d : Device C F}
    (h : Answered request granted (next ()) (d.note (.tell event))) :
    Answered request granted (Device.tell event >>= next) d :=
  .after_aside rfl ((Device.madeOnly_refl _ d).snoc rfl rfl) h

theorem Answered.then_throw {request : Option (AckId × RequestKind)} {granted : Prop}
    {task : Task C F DeviceError Unit} {d : Device C F} (h : Answered request granted task d) (why : MessageError) :
    Answered request granted (task >>= fun _ => throw (.message why)) d := by
  refine ⟨by rw [Task.after_bind_throw]; exact h.calls, fun e he => ?_⟩
  rcases hrun : task d with ⟨_, m⟩ | ⟨e', m⟩
  · have hthrow : (task >>= fun _ => throw (.message why) : Task C F DeviceError Unit) d = .error (.message why) m :=
      Task.bind_of_ok hrun
    rw [Task.result_of_error hthrow] at he
    cases he
    exact .inl ⟨why, rfl⟩
  · have hfail : (task >>= fun _ => throw (.message why) : Task C F DeviceError Unit) d = .error e' m :=
      Task.bind_of_error hrun
    rw [Task.result_of_error hfail] at he
    exact h.ends e (by rw [Task.result_of_error hrun, he])

theorem answered_giveUp (e : UpdateError) (id : Option AckId) {granted : Prop} (d : Device C F) :
    Answered (id.map (·, .update)) granted (giveUp e id) d :=
  .after_tell (answered_answer _ _ _ _ (fun h => by cases h) _)

theorem answered_handleCommand (s : Service) (command : Command) (text : Bounded 128) (id : Option AckId)
    (d : Device C F) :
    Answered (id.map (·, .command)) (s.Grants (.command command text id)) (handleCommand command id) d := by
  unfold handleCommand
  cases command with
  | ping =>
    exact .after_aside rfl (Device.madeOnly_refl _ d) (.after_tell (answered_answer _ _ _ _ (fun _ => trivial) _))
  | invalid why =>
    exact .after_aside rfl (Device.madeOnly_refl _ d) (.after_tell (answered_answer _ _ _ _ (fun h => by cases h) _))
  | unknown =>
    exact .after_aside rfl (Device.madeOnly_refl _ d) (.after_tell (answered_answer _ _ _ _ (fun h => by cases h) _))
  | led led on =>
    refine .after_aside rfl ?_ (.after_tell (answered_answer _ _ _ _ (fun _ => trivial) _))
    split
    · exact (Device.madeOnly_refl _ d).snoc rfl rfl
    · exact Device.madeOnly_refl _ d

section Course

variable [RangeSource C]

/-- The offers that are performed: of another version, and of a higher one unless the settings allow any. -/
structure Admits (s : Service) (offer : Offer) : Prop where
  other : offer.version.text ≠ s.running
  above : s.settings.allowDowngrade = false → s.running < offer.version.text

/-- A run that downloads and activates the image of an offer. -/
structure Performed (s : Service) (offer : Offer) (task : Task C FaultyPartition DeviceError Unit)
    (d : Device C FaultyPartition) (total : UInt32) (m moment : Device C FaultyPartition) (e : UpdateError)
    (m' : Device C FaultyPartition) : Prop where
  admitted : s.Admits offer
  downloaded : Update.download s.settings offer d = .ok total m
  activation : Update.Activation s.settings (offer.ackId.map fun id => .ofText id .update true "OK") m moment e m'
  ends : task d = .ok () (m'.note (.tell (.failed e)))

theorem handleOffer_of_admits [FlashDevice F] {s : Service} {offer : Offer} (h : s.Admits offer) :
    (s.handleOffer offer : Task C F DeviceError Unit) = s.perform offer := by
  unfold handleOffer VersionOrder.ofOffer
  rw [if_neg h.other]
  by_cases hbelow : offer.version.text < s.running
  · have hallow : s.settings.allowDowngrade = true := by
      by_cases hallow : s.settings.allowDowngrade = true
      · exact hallow
      · have habove := h.above (by simpa using hallow)
        exact absurd (String.lt_trans habove hbelow) (String.lt_irrefl _)
    rw [if_pos hbelow]
    simp only [hallow, if_true]
  · rw [if_neg hbelow]

theorem handleOffer_of_refused [FlashDevice F] {s : Service} {offer : Offer} (hother : offer.version.text ≠ s.running)
    (h : ¬ s.Admits offer) :
    (s.handleOffer offer : Task C F DeviceError Unit) = giveUp .downgradeRejected offer.ackId := by
  unfold handleOffer VersionOrder.ofOffer
  rw [if_neg hother]
  by_cases hbelow : offer.version.text < s.running
  · rw [if_pos hbelow]
    cases hallow : s.settings.allowDowngrade with
    | false => rfl
    | true => exact absurd ⟨hother, fun hdeny => by rw [hallow] at hdeny; cases hdeny⟩ h
  · have habove : s.running < offer.version.text :=
      Decidable.byContradiction fun hnot => hother (String.le_antisymm hnot hbelow)
    exact absurd ⟨hother, fun _ => habove⟩ h

theorem answered_of_not_admits {s : Service} {offer : Offer} (h : ¬ s.Admits offer) (d : Device C FaultyPartition) :
    Answered (offer.ackId.map (·, .update)) (s.Grants (.offer offer)) (s.handleOffer offer) d := by
  by_cases hsame : offer.version.text = s.running
  · unfold handleOffer VersionOrder.ofOffer
    rw [if_pos hsame]
    exact .after_tell (answered_answer _ _ _ _ (fun _ => hsame) _)
  · rw [handleOffer_of_refused hsame h]
    exact answered_giveUp _ _ d

/-- **An offer whose image was downloaded is performed.** -/
theorem performed_of_download {s : Service} {offer : Offer} (hadmits : s.Admits offer)
    {d m : Device C FaultyPartition} {total : UInt32} (hdownload : Update.download s.settings offer d = .ok total m) :
    ∃ moment e m', Performed s offer (s.perform offer) d total m moment e m' := by
  obtain ⟨hverified, -⟩ := Update.provenance_of_download hdownload
  obtain ⟨moment, e, m', hactivate, hactivation⟩ := Update.activation_of_ready
    (u := s.settings) (offer.ackId.map fun id => .ofText id .update true "OK") hverified.ready
  refine ⟨moment, e, m', hadmits, hdownload, hactivation, ?_⟩
  unfold perform
  rw [Task.bind_of_ok (Task.attempt_apply _ d), Task.result_of_ok hdownload, Task.after_of_ok hdownload]
  simp only []
  rw [Task.bind_of_ok hactivate]
  rfl

theorem answered_of_download_error {s : Service} {offer : Offer} {d m : Device C FaultyPartition} {e : UpdateError}
    (hdownload : Update.download s.settings offer d = .error e m) {granted : Prop} :
    Answered (offer.ackId.map (·, .update)) granted (s.perform offer) d := by
  obtain ⟨hcalls, haside⟩ := Update.calls_download s.settings offer d
  rw [Task.after_of_error hdownload] at hcalls
  have hattempt : (Task.attempt (Update.download s.settings offer) : Task C FaultyPartition DeviceError _) d =
      .ok (.error e) m := by
    rw [Task.attempt_apply, Task.result_of_error hdownload, Task.after_of_error hdownload]
  exact .after_aside hattempt ⟨_, hcalls, haside⟩ (answered_giveUp e offer.ackId m)

/-- **An offer is answered, or admitted and performed.** -/
theorem course_of_handleOffer (s : Service) (offer : Offer) (d : Device C FaultyPartition) :
    Answered (offer.ackId.map (·, .update)) (s.Grants (.offer offer)) (s.handleOffer offer) d ∨
      ∃ total m moment e m', Performed s offer (s.handleOffer offer) d total m moment e m' := by
  by_cases hadmits : s.Admits offer
  · rw [handleOffer_of_admits hadmits]
    rcases hdownload : Update.download s.settings offer d with ⟨total, m⟩ | ⟨e, m⟩
    · exact .inr ⟨total, m, performed_of_download hadmits hdownload⟩
    · exact .inl (answered_of_download_error hdownload)
  · exact .inl (answered_of_not_admits hadmits d)

inductive Course (s : Service) (payload : Bytes) (d : Device C FaultyPartition) : Prop
  | undecodable (e : MessageError) (decoded : Inbound.parse payload = .error e)
      (ends : s.handle payload d = .error (.message e) d)
  | answered (message : Inbound) (decoded : Inbound.parse payload = .ok message)
      (answer : Answered message.request? (s.Grants message) (s.handle payload) d)
  | performed (offer : Offer) (decoded : Inbound.parse payload = .ok (.offer offer)) (total : UInt32)
      (m moment : Device C FaultyPartition) (e : UpdateError) (m' : Device C FaultyPartition)
      (performance : Performed s offer (s.handle payload) d total m moment e m')

/-- **Every payload is undecodable, answered or performed.** -/
theorem course_of_handle (s : Service) (payload : Bytes) (d : Device C FaultyPartition) : Course s payload d := by
  cases hparse : Inbound.parse payload with
  | error e =>
    refine .undecodable e hparse ?_
    simp only [handle, hparse, Task.throw_apply]
  | ok message =>
    have hhandle : (s.handle payload : Task C FaultyPartition DeviceError Unit) = s.act message := by
      simp only [handle, hparse]
    cases message with
    | command command text id =>
      refine .answered _ hparse ?_
      rw [hhandle]
      exact answered_handleCommand s command text id d
    | offer offer =>
      have hact : (s.handle payload : Task C FaultyPartition DeviceError Unit) = s.handleOffer offer := hhandle
      rcases course_of_handleOffer s offer d with hanswered | ⟨total, m, moment, e, m', hperformed⟩
      · exact .answered _ hparse (hact ▸ hanswered)
      · exact .performed offer hparse total m moment e m' (hact ▸ hperformed)
    | malformed kind id why =>
      refine .answered _ hparse ?_
      rw [hhandle]
      exact (answered_answer (some id) kind false why.message (fun h => by cases h) d).then_throw why
    | other type =>
      refine .answered _ hparse ?_
      rw [hhandle]
      exact ⟨⟨[], false, "", .error .encode, by simp [act, answers, Inbound.request?, Task.after], by simp,
        fun h => by cases h⟩, fun e h => by cases h⟩

end Course

end Service
end Firmware
