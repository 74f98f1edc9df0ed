import Firmware.Proofs.Conduct
import Firmware.Proofs.Printing
import Firmware.Source.Rehearsed
/-!
# Publication — what the cloud reads in an acknowledgement

An acknowledgement is published as a JSON text that says its id, the codes of its kind and outcome, and its message,
whatever characters id and message hold.  A request is acknowledged under the id that was decoded from it, so the cloud
reads back the id that it sent.  `reads_back_requested_id` is the main statement.
-/
open Firmware.Task (keeps_conclude)

namespace Firmware

def Ack.document (a : Ack) : Json.Document :=
  .object [("d", .object
    [("ack", .text a.id.text), ("type", .number a.kind.code), ("st", .number a.status), ("msg", .text a.message.text)])]

/-- The payload is a JSON text without control characters that says the acknowledgement and nothing else. -/
structure Ack.Tells (a : Ack) (payload : String) : Prop where
  clear : ∀ b ∈ Bytes.ofText payload, 0x20 ≤ b
  text : (Bytes.ofText payload).text? = some payload
  written : a.document.Writes (Bytes.ofText payload)
  decoded : ∃ v, Json.Value.parse? (Bytes.ofText payload) = some v ∧
    ∀ doc : Json.Document, doc.Means v ↔ doc = a.document

theorem Ack.printed_json (a : Ack) : Json.Printed a.json a.document :=
  have hbody : Json.Printed _ (.object
      [("ack", .text a.id.text), ("type", .number a.kind.code), ("st", .number a.status),
        ("msg", .text a.message.text)]) :=
    Json.printed_braced <|
      .cons (Json.printedMember "ack" (Json.printed_text a.id.text)) <|
      .cons (Json.printedMember "type" (Json.printed_number a.kind.code)) <|
      .cons (Json.printedMember "st" (Json.printed_number a.status)) <|
      .cons (Json.printedMember "msg" (Json.printed_text a.message.text)) .nil
  Json.printed_braced (.cons (Json.printedMember "d" hbody) .nil)

theorem Ack.tells_json (a : Ack) : a.Tells a.json where
  clear := a.printed_json.decodes.1
  text := Bytes.text?_ofText a.json
  written := a.printed_json.writes
  decoded := a.printed_json.decodes.2

/-! ## Publishing one acknowledgement -/

/-- How an attempt to publish `ack` may end: what is published goes to the topic and tells the acknowledgement, and
with no failure due it is published. -/
structure Uplink.Publishes (u : Uplink) (ack : Ack) (answer : Except AckError Publication) : Prop where
  tells : ∀ p, answer = .ok p → p.topic = u.topic ∧ ack.Tells p.payload
  succeeds : u.failures.head?.join = none → ∃ p, answer = .ok p

theorem Uplink.publishes (u : Uplink) (ack : Ack) : u.Publishes ack (u.publish ack).1 := by
  have hok : u.Publishes ack (.ok ⟨u.topic, ack.json⟩) := by
    refine ⟨fun p hp => ?_, fun _ => ⟨_, rfl⟩⟩
    cases hp
    exact ⟨rfl, ack.tells_json⟩
  obtain ⟨topic, failures⟩ := u
  match failures with
  | [] | none :: rest => exact hok
  | some e :: rest =>
    refine ⟨fun p hp => ?_, fun hnone => ?_⟩
    · cases hp
    · cases hnone

/-! ## Publishing in turn -/

def Call.acknowledged? : Call → Option (Ack × Except AckError Publication)
  | .acknowledge ack answer => some (ack, answer)
  | _ => none

theorem Call.acknowledged?_of_isAside {call : Call} (h : call.isAside = true) : call.acknowledged? = none := by
  cases call <;> first | rfl | cases h

theorem map_fst_acknowledged? (calls : List Call) :
    (calls.filterMap Call.acknowledged?).map Prod.fst = calls.filterMap Call.ack? := by
  rw [List.map_filterMap]
  refine List.filterMap_congr fun call _ => ?_
  cases call <;> rfl

/-- The uplink answers the acknowledgements one after the other, and stands at the second uplink then. -/
inductive Uplink.Serves (u : Uplink) : List (Ack × Except AckError Publication) → Uplink → Prop where
  | nil : Serves u [] u
  | snoc {entries : List (Ack × Except AckError Publication)} {u' : Uplink} (ack : Ack) (h : Serves u entries u') :
    Serves u (entries ++ [(ack, (u'.publish ack).1)]) (u'.publish ack).2

theorem Uplink.Serves.eq_of_nil {u u' : Uplink} (h : u.Serves [] u') : u' = u := by
  generalize hentries : [] = entries at h
  cases h with
  | nil => rfl
  | snoc ack h => simp at hentries

theorem Uplink.Serves.of_singleton {u u' : Uplink} {ack : Ack} {answer : Except AckError Publication}
    (h : u.Serves [(ack, answer)] u') : answer = (u.publish ack).1 := by
  generalize hentries : [(ack, answer)] = entries at h
  cases h with
  | nil => cases hentries
  | @snoc entries u'' ack' h =>
    obtain ⟨rfl, hlast⟩ := List.append_inj' ((List.nil_append _).trans hentries) rfl
    cases hlast
    rw [h.eq_of_nil]

namespace Device

variable {C F : Type} {d m m' : Device C F}

def Served (d m : Device C F) : Prop :=
  ∃ calls, m.calls = d.calls ++ calls ∧ d.uplink.Serves (calls.filterMap Call.acknowledged?) m.uplink

theorem Served.aside {call : Call} (h : Served d m) (hj : m'.journal = call :: m.journal) (hu : m'.uplink = m.uplink)
    (hcall : call.acknowledged? = none) : Served d m' := by
  obtain ⟨calls, hcalls, hserves⟩ := h
  refine ⟨calls ++ [call], ?_, ?_⟩
  · rw [calls_of_journal hj, hcalls, List.append_assoc]
  · rw [List.filterMap_append, List.filterMap_cons_none hcall, List.filterMap_nil, List.append_nil, hu]
    exact hserves

theorem Served.acknowledge (h : Served d m) (ack : Ack) :
    Served d ({ m with uplink := (m.uplink.publish ack).2 }.note (.acknowledge ack (m.uplink.publish ack).1)) := by
  obtain ⟨calls, hcalls, hserves⟩ := h
  refine ⟨calls ++ [.acknowledge ack (m.uplink.publish ack).1], ?_, ?_⟩
  · rw [Device.calls_note, ← List.append_assoc, ← hcalls]
    rfl
  · rw [List.filterMap_append]
    exact .snoc ack hserves

theorem keptOutward_served : KeptOutward (Served d) :=
  fun _ _ _ hcall hm => hm.aside rfl rfl (Call.acknowledged?_of_isAside (Call.isAside_of_isOutward hcall))

theorem keptInward_served [FlashDevice F] : KeptInward (Served d) :=
  .of_note (fun _ _ hm => hm) fun _ _ _ hcall hm =>
    hm.aside rfl rfl (Call.acknowledged?_of_isAside (Call.isAside_of_isInward hcall))

end Device

namespace Service

variable {C F : Type} [RangeSource C] [FlashDevice F]

theorem keeping_served (d : Device C F) : Keeping (Device.Served d) :=
  have hupdate : Update.Keeping (Device.Served d) := .of_inward Device.keptOutward_served Device.keptInward_served
  .of_parts Device.keptOutward_served (fun _ ack hm => hm.acknowledge ack) (fun _ _ _ hm => hm.aside rfl rfl rfl)
    (Update.keeps_download hupdate) (hupdate.abandon _) fun _ hm => keeps_conclude _ _ (hm.aside rfl rfl rfl)

/-- **The acknowledgements of a run are answered by the uplink in turn.** -/
theorem serves_handle (s : Service) (payload : Bytes) (d : Device C F) :
    d.uplink.Serves (((s.handle payload).made d).filterMap Call.acknowledged?) ((s.handle payload).after d).uplink := by
  obtain ⟨calls, hcalls, hserves⟩ := keeps_handle (keeping_served d) s payload d ⟨[], by simp, .nil⟩
  rwa [Task.made_of_calls hcalls]

theorem acknowledged_of_requested {C : Type} [RangeSource C] {s : Service} {payload : Bytes}
    {d : Device C FaultyPartition} {id : AckId} {kind : RequestKind}
    (h : Inbound.requested? payload = some (id, kind)) :
    ∃ ack, ack.id = id ∧ ack.kind = kind ∧
      ((s.handle payload).made d).filterMap Call.acknowledged? = [(ack, (d.uplink.publish ack).1)] := by
  have hacks := acks_of_handle s payload d
  rw [h, ← map_fst_acknowledged?, List.map_map] at hacks
  have hserves := serves_handle s payload d
  obtain ⟨⟨ack, answer⟩, hentries, hack⟩ := List.map_eq_singleton_iff.1 hacks
  rw [hentries] at hserves ⊢
  cases hack
  exact ⟨ack, rfl, rfl, by rw [hserves.of_singleton]⟩

end Service

/-- **The cloud reads back the id that it sent.**  Every acknowledgement that is published tells its id, its codes and
its message; a request, however its id was spelled, is acknowledged once and under this id. -/
theorem Ack.reads_back_requested_id :
    (∀ (u : Uplink) (ack : Ack), u.Publishes ack (u.publish ack).1) ∧
      ∀ (C : Type) [RangeSource C] (s : Service) (payload : Bytes) (d : Device C FaultyPartition) (id : AckId)
        (kind : RequestKind), Inbound.requested? payload = some (id, kind) →
        ∃ ack answer, ack.id = id ∧ ack.kind = kind ∧
          ((s.handle payload).made d).filterMap Call.acknowledged? = [(ack, answer)] ∧
          d.uplink.Publishes ack answer := by
  refine ⟨Uplink.publishes, fun C _ s payload d id kind hrequested => ?_⟩
  obtain ⟨ack, hid, hkind, hentries⟩ := Service.acknowledged_of_requested (s := s) (d := d) hrequested
  exact ⟨ack, _, hid, hkind, hentries, Uplink.publishes _ _⟩

/-- An id of a quote, a backslash, two control characters and a rocket. -/
def oddId : AckId := ⟨"\"\\\x01\x7f🚀", by decide⟩

def oddPing : Bytes :=
  Bytes.ofText "\x7b\"ct\":0,\"ack\":\"\\u0022\\\\\\u0001\x7f\\uD83d\\uDE80\",\"cmd\":\"ping\"\x7d"

def onceReachable : Device RehearsedSource FaultyPartition where
  source := {}
  flash := { partition := {} }
  uplink := { topic := .empty, failures := [none, some .publish] }

theorem oddPing_reads_back :
    Inbound.requested? oddPing = some (oddId, .command) ∧
      ∃ ack p, ack.id = oddId ∧ ack.kind = .command ∧
        ((({} : Service).handle oddPing).made onceReachable).filterMap Call.acknowledged? = [(ack, .ok p)] ∧
        ack.Tells p.payload := by
  have hrequested : Inbound.requested? oddPing = some (oddId, .command) := by decide +kernel
  obtain ⟨ack, answer, hid, hkind, hentries, hpublishes⟩ :=
    Ack.reads_back_requested_id.2 RehearsedSource {} oddPing onceReachable oddId .command hrequested
  obtain ⟨p, rfl⟩ := hpublishes.succeeds rfl
  exact ⟨hrequested, ack, p, hid, hkind, hentries, (hpublishes.tells p rfl).2⟩

end Firmware
