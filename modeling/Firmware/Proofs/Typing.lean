import Firmware.Proofs.Conduct
import Firmware.Proofs.Digest
/-!
# Typing — which requests keep their id

A message is read as a record as a whole before its id is looked at.  So the id of a request is kept exactly when every
field that is read holds a value of the type that is read, also a field that the request does not ask for
(`requested?_iff_wellTyped`); one value of another type loses the id with the message.
-/
namespace Firmware

open Json (Fields Member Content Token)

/-- Null, or a string that spells a text. -/
def Json.Value.IsText (v : Json.Value) : Prop :=
  v = .null ∨ ∃ content s, v = .string content ∧ Content.text? content = some s

namespace Inbound

open Json (Value)

def downloadNames : List String := ["url", "fileName", "sha256"]

/-- An object in which no name of a field stands twice, or an array of at most as many items as there are fields; the
fields hold texts. -/
inductive IsDownload : Value → Prop where
  | object {members : List Member} {fields : Fields} (named : Json.named? members = some fields)
    (distinct : ((fields.filter fun f => downloadNames.contains f.1).map Prod.fst).Nodup)
    (texts : ∀ name ∈ downloadNames, ∀ v ∈ fields.lookup name, v.IsText) : IsDownload (.object members)
  | array {items : List Value} (short : items.length ≤ 3) (texts : ∀ v ∈ items, v.IsText) : IsDownload (.array items)

/-- The fields that any message may have are of the types that are read. -/
structure WellTyped (fields : Fields) : Prop where
  cmd : ∀ v ∈ fields.lookup "cmd", v.IsText
  sw : ∀ v ∈ fields.lookup "sw", v.IsText
  urls : ∀ v ∈ fields.lookup "urls", ∃ items, v = .array items ∧ ∀ item ∈ items, IsDownload item

/-- An object that asks for an acknowledgement, whatever its other members hold. -/
structure Asking (kind : RequestKind) (id : AckId) (fields : Fields) (payload : Bytes) : Prop where
  written : ∃ members, Json.Written (Value.object members).tokens payload ∧ Json.named? members = some fields
  distinct : (fields.map Prod.fst).Nodup
  ct : fields.lookup "ct" = some (.number (Bytes.ofText (Decimal.text kind.code)))
  ack : ∃ content, fields.lookup "ack" = some (.string content) ∧ Content.text? content = some id.text
  nonempty : id.text ≠ ""

/-! ## Reading succeeds on what is well typed -/

theorem isSome_textField?_iff {fields : Fields} {name : String} :
    (textField? fields name).isSome = true ↔ ∀ v ∈ fields.lookup name, v.IsText := by
  unfold textField?
  cases fields.lookup name with
  | none => simp [Json.optional?]
  | some v => cases v <;> simp [Json.optional?, Value.text?, Value.IsText, Option.isSome_iff_exists]

theorem isSome_mapM_iff {α β : Type} {f : α → Option β} {xs : List α} :
    (xs.mapM f).isSome = true ↔ ∀ x ∈ xs, (f x).isSome = true := by
  induction xs with
  | nil => simp
  | cons x xs ih =>
    rw [List.forall_mem_cons, ← ih, List.mapM_cons]
    cases f x <;> cases xs.mapM f <;> simp

theorem isSome_ofJson?_iff_fields {v : Value} :
    (Download.ofJson? v).isSome = true ↔ ∃ fields, v.fields? downloadNames 0 = some fields ∧
      ∀ name ∈ downloadNames, ∀ v ∈ fields.lookup name, v.IsText := by
  simp only [← isSome_textField?_iff, downloadNames, List.forall_mem_cons, Download.ofJson?]
  cases v.fields? ["url", "fileName", "sha256"] 0 with
  | none => simp
  | some fields =>
    simp only [Option.some.injEq, exists_eq_left', Option.bind_eq_bind, Option.bind_some, Option.pure_def]
    cases textField? fields "url" <;> cases textField? fields "fileName" <;> cases textField? fields "sha256" <;> simp

theorem forall_lookup_zip_iff {items : List Value} (h : items.length ≤ 3) :
    (∀ name ∈ downloadNames, ∀ v ∈ (downloadNames.zip items).lookup name, v.IsText) ↔ ∀ v ∈ items, v.IsText := by
  match items with
  | [] | [_] | [_, _] | [_, _, _] => simp [downloadNames, List.lookup_cons]

theorem isSome_ofJson?_iff {v : Value} : (Download.ofJson? v).isSome = true ↔ IsDownload v := by
  rw [isSome_ofJson?_iff_fields]
  constructor
  · rintro ⟨known, hknown, htexts⟩
    cases v with
    | object members =>
      obtain ⟨fields, hnamed, hdistinct, rfl⟩ := Value.fields?_object_eq_some_iff.1 hknown
      refine .object hnamed hdistinct fun name hname v hv => htexts name hname v ?_
      rwa [Json.lookup_filter_contains hname]
    | array items =>
      obtain ⟨⟨-, hshort⟩, rfl⟩ := Value.fields?_array_eq_some_iff.1 hknown
      exact .array hshort ((forall_lookup_zip_iff hshort).1 htexts)
    | _ => cases hknown
  · intro h
    cases h with
    | object named distinct texts =>
      refine ⟨_, Value.fields?_object_eq_some_iff.2 ⟨_, named, distinct, rfl⟩, fun name hname v hv => ?_⟩
      rw [Json.lookup_filter_contains hname] at hv
      exact texts name hname v hv
    | array short texts =>
      exact ⟨_, Value.fields?_array_eq_some_iff.2 ⟨⟨by omega, short⟩, rfl⟩, (forall_lookup_zip_iff short).2 texts⟩

theorem isSome_downloads?_iff {v : Option Value} :
    (downloads? v).isSome = true ↔ ∀ w ∈ v, ∃ items, w = .array items ∧ ∀ item ∈ items, IsDownload item := by
  cases v with
  | none => simp [downloads?]
  | some w =>
    cases w with
    | array items => simp [downloads?, Value.items?, isSome_mapM_iff, isSome_ofJson?_iff]
    | _ => simp [downloads?, Value.items?]

theorem wellTyped_iff {fields : Fields} :
    WellTyped fields ↔ (textField? fields "cmd").isSome = true ∧ (textField? fields "sw").isSome = true ∧
      (downloads? (fields.lookup "urls")).isSome = true := by
  rw [isSome_textField?_iff, isSome_textField?_iff, isSome_downloads?_iff]
  constructor
  · intro h
    exact ⟨h.cmd, h.sw, h.urls⟩
  · rintro ⟨cmd, sw, urls⟩
    exact ⟨cmd, sw, urls⟩

/-- **An envelope is read exactly if its fields are well typed**, and then with the type and the id of the request. -/
theorem Asking.envelope {kind : RequestKind} {id : AckId} {fields : Fields} {payload : Bytes}
    (h : Asking kind id fields payload) :
    (WellTyped fields ∧ ∃ e, Envelope.parse? payload = some e ∧ e.ct = some kind.code ∧ e.ack = some id.text) ∨
      (¬ WellTyped fields ∧ Envelope.parse? payload = none) := by
  obtain ⟨members, hwritten, hnamed⟩ := h.written
  obtain ⟨content, hack, htext⟩ := h.ack
  obtain ⟨known, hknown, hfound⟩ := Value.fields?_of_named hnamed h.distinct ["ct", "cmd", "ack", "sw", "urls"] 1
  have hct : Json.optional? (Value.natBelow? UInt16.size) (known.lookup "ct") = some (some kind.code) := by
    rw [hfound "ct" (by decide), h.ct]
    simp [Json.optional?, Value.natBelow?_text kind.code_lt]
  have hid : textField? known "ack" = some (some id.text) := by
    simp [textField?, hfound "ack" (by decide), hack, Json.optional?, Value.text?, htext]
  have hcmd : textField? known "cmd" = textField? fields "cmd" := by
    rw [textField?, hfound "cmd" (by decide), textField?]
  have hsw : textField? known "sw" = textField? fields "sw" := by
    rw [textField?, hfound "sw" (by decide), textField?]
  have hurls : downloads? (known.lookup "urls") = downloads? (fields.lookup "urls") := by
    rw [hfound "urls" (by decide)]
  rw [wellTyped_iff]
  simp only [Envelope.parse?, Value.parse?_of_written hwritten, Envelope.ofJson?, hknown, hct, hid, hcmd, hsw, hurls,
    Option.bind_eq_bind, Option.bind_some, Option.pure_def]
  cases textField? fields "cmd" <;> cases textField? fields "sw" <;>
    cases downloads? (fields.lookup "urls") <;> simp

/-! ## A request that is read keeps its id -/

theorem Envelope.ackId_of_offer {e : Envelope} {id : Option AckId} {o : Offer} (h : e.offer id = .ok o) :
    o.ackId = id := by
  obtain ⟨_, -, -, -, -, -, hid⟩ := offer_eq_ok_iff.1 h
  exact hid

theorem Envelope.request?_of_message {e : Envelope} {kind : RequestKind} {id : AckId} {message : Inbound}
    (h : e.message kind (some id) = .ok message) : message.request? = some (id, kind) := by
  cases kind with
  | command =>
    simp only [Envelope.message] at h
    cases hc : e.command with
    | error why => simp [hc, Except.map] at h
    | ok c =>
      simp only [hc, Except.map, Except.ok.injEq] at h
      subst h
      rfl
  | update =>
    simp only [Envelope.message] at h
    cases ho : e.offer (some id) with
    | error why => simp [ho, Except.map] at h
    | ok o =>
      simp only [ho, Except.map, Except.ok.injEq] at h
      subst h
      simp [request?, Envelope.ackId_of_offer ho]

theorem request?_ofEnvelope {e : Envelope} {kind : RequestKind} {id : AckId} (hct : e.ct = some kind.code)
    (hack : e.ack = some id.text) (hne : id.text ≠ "") :
    ∃ message, ofEnvelope e = .ok message ∧ message.request? = some (id, kind) := by
  have hrun : ofEnvelope e = settle kind (some id) (e.message kind (some id)) := by
    rw [ofEnvelope_of_ct hct, Envelope.ackId_text hack hne]
    rfl
  rw [hrun]
  cases hm : e.message kind (some id) with
  | ok message => exact ⟨message, rfl, Envelope.request?_of_message hm⟩
  | error why => exact ⟨.malformed kind id why, rfl, rfl⟩

/-- **A request keeps its id exactly if its fields are well typed.**  One field of another type, and the payload asks
for nothing: it is refused as no message at all. -/
theorem requested?_iff_wellTyped {kind : RequestKind} {id : AckId} {fields : Fields} {payload : Bytes}
    (h : Asking kind id fields payload) :
    (requested? payload = some (id, kind) ↔ WellTyped fields) ∧
      (¬ WellTyped fields → parse payload = .error .json) := by
  rcases h.envelope with ⟨htyped, e, hparse, hct, hack⟩ | ⟨htyped, hparse⟩
  · obtain ⟨message, hmessage, hrequest⟩ := request?_ofEnvelope hct hack h.nonempty
    have hrun : parse payload = .ok message := by simp only [parse, hparse, hmessage]
    exact ⟨by simp [requested?, hrun, hrequest, htyped], fun hn => absurd htyped hn⟩
  · have hrun : parse payload = .error .json := by simp only [parse, hparse]
    exact ⟨by simp [requested?, hrun, htyped], fun _ => hrun⟩

def badlyTyped : Bytes := Bytes.ofText "\x7b\"ct\":0,\"ack\":\"a\",\"cmd\":5\x7d"

def badlyTypedFields : Fields :=
  [("ct", .number [0x30]), ("ack", .string ((Bytes.ofText "a").map .octet)), ("cmd", .number [0x35])]

theorem badlyTyped_asking : Asking .command ⟨"a", by decide⟩ badlyTypedFields badlyTyped := by
  have htext : ∀ s : String, Content.text? ((Bytes.ofText s).map .octet) = some s :=
    fun s => Content.text?_of_spells (Content.spells_ofText s)
  have hzero : Json.IsNumber [0x30] := .mk (.inl rfl) .zero .none .none
  have hwhole : Json.IsWhole [0x35] := .digits rfl (by decide) (by simp)
  have hfive : Json.IsNumber [0x35] := .mk (.inl rfl) hwhole .none .none
  refine ⟨⟨[((Bytes.ofText "ct").map .octet, .number [0x30]),
    ((Bytes.ofText "ack").map .octet, .string ((Bytes.ofText "a").map .octet)),
    ((Bytes.ofText "cmd").map .octet, .number [0x35])], ?_, ?_⟩, by decide, rfl, ⟨_, rfl, htext "a"⟩, by decide⟩
  · exact .token .openObject <|
      .token (Token.writes_octets (Bytes.ofText "ct") (by decide +kernel)) <| .token .colon <|
      .token (.number hzero) <| .token .comma <|
      .token (Token.writes_octets (Bytes.ofText "ack") (by decide +kernel)) <| .token .colon <|
      .token (Token.writes_octets (Bytes.ofText "a") (by decide +kernel)) <| .token .comma <|
      .token (Token.writes_octets (Bytes.ofText "cmd") (by decide +kernel)) <| .token .colon <|
      .token (.number hfive) <| .token .closeObject <| .nil (by decide +kernel)
  · exact Json.named?_cons (htext "ct") (Json.named?_cons (htext "ack") (Json.named?_cons (htext "cmd") rfl))

theorem badlyTyped_requested :
    Asking .command ⟨"a", by decide⟩ badlyTypedFields badlyTyped ∧
      (requested? badlyTyped = some (⟨"a", by decide⟩, .command) ↔ WellTyped badlyTypedFields) ∧
      (¬ WellTyped badlyTypedFields → parse badlyTyped = .error .json) :=
  ⟨badlyTyped_asking, requested?_iff_wellTyped badlyTyped_asking⟩

/-- The id of a badly typed request is lost. -/
theorem badlyTyped_loses_id :
    ¬ ∀ (kind : RequestKind) (id : AckId) (fields : Fields) (payload : Bytes), Asking kind id fields payload →
      requested? payload = some (id, kind) := fun h => by
  have hkept := h .command _ _ _ badlyTyped_asking
  have hlost : requested? badlyTyped = none := by decide +kernel
  rw [hlost] at hkept
  cases hkept

end Inbound
end Firmware
