import Firmware.Proofs.Typing
/-!
# Arrangement — how a message is laid out does not change what it says

The members of a message may stand in any order, among others that nobody asks for, with blanks wherever the grammar
allows them.  A record is read by looking its fields up, so what counts is which fields are there and what they hold
(`Value.fields?_perm`, `Value.fields?_padded`).  From there `parse_eq_of_rewritten` says that two payloads whose
messages differ in their layout alone are decoded to the same result.
-/
namespace Firmware

namespace Json

variable {ms ms' : List Member} {names : List String}

/-- Other members are put in anywhere; their names spell texts, and none is the name of a field. -/
inductive Padded (names : List String) : List Member → List Member → Prop where
  | nil : Padded names [] []
  | keep (m : Member) {ms ms' : List Member} (h : Padded names ms ms') : Padded names (m :: ms) (m :: ms')
  | insert {key : Content} {name : String} (v : Value) {ms ms' : List Member} (spelled : Content.text? key = some name)
    (other : name ∉ names) (h : Padded names ms ms') : Padded names ms ((key, v) :: ms')

def known (names : List String) (fields : Fields) : Fields := fields.filter fun f => names.contains f.1

theorem fields?_object (names : List String) (least : Nat) (ms : List Member) :
    (Value.object ms).fields? names least =
      (named? ms).bind fun fields => if ((known names fields).map Prod.fst).Nodup then some (known names fields)
        else none := rfl

/-! ## Spelling the names -/

theorem named?_cons_eq (key : Content) (v : Value) (ms : List Member) :
    named? ((key, v) :: ms) = (Content.text? key).bind fun name => (named? ms).map ((name, v) :: ·) := by
  cases hkey : Content.text? key with
  | none => simp [named?, List.mapM_cons, hkey]
  | some name =>
    cases hms : named? ms with
    | some fields => exact named?_cons hkey hms
    | none =>
      unfold named? at hms ⊢
      rw [List.mapM_cons, hms]
      simp [hkey]

theorem named?_append (ms ms' : List Member) :
    named? (ms ++ ms') = (named? ms).bind fun fields => (named? ms').map (fields ++ ·) := by
  induction ms with
  | nil =>
    have hnil : named? [] = some [] := rfl
    rw [hnil]
    cases h : named? ms' <;> simp [h]
  | cons m ms ih =>
    obtain ⟨key, v⟩ := m
    rw [List.cons_append, named?_cons_eq, named?_cons_eq, ih]
    cases Content.text? key <;> cases named? ms <;> cases named? ms' <;> rfl

theorem named?_perm (h : ms.Perm ms') : Option.Rel List.Perm (named? ms) (named? ms') := by
  induction h with
  | nil => exact .some .nil
  | @cons m ms ms' _ ih =>
    obtain ⟨key, v⟩ := m
    rw [named?_cons_eq, named?_cons_eq]
    generalize named? ms = fields, named? ms' = fields' at ih ⊢
    cases Content.text? key with
    | none => exact .none
    | some name =>
      cases ih with
      | none => exact .none
      | some h => exact .some (h.cons _)
  | swap m m' ms =>
    obtain ⟨key, v⟩ := m
    obtain ⟨key', v'⟩ := m'
    simp only [named?_cons_eq]
    cases Content.text? key <;> cases Content.text? key' <;> cases named? ms <;>
      first | exact .none | exact .some (.swap _ _ _)
  | @trans ms₁ ms₂ ms₃ _ _ ih ih' =>
    generalize named? ms₁ = fields₁, named? ms₂ = fields₂, named? ms₃ = fields₃ at ih ih' ⊢
    cases ih with
    | none => exact ih'
    | some h =>
      cases ih' with
      | some h' => exact .some (h.trans h')

theorem named?_padded (h : Padded names ms ms') :
    Option.Rel (fun fields fields' => known names fields = known names fields') (named? ms) (named? ms') := by
  induction h with
  | nil => exact .some rfl
  | @keep m ms ms' _ ih =>
    obtain ⟨key, v⟩ := m
    rw [named?_cons_eq, named?_cons_eq]
    generalize named? ms = fields, named? ms' = fields' at ih ⊢
    cases Content.text? key with
    | none => exact .none
    | some name =>
      cases ih with
      | none => exact .none
      | some h =>
        refine .some ?_
        unfold known at h ⊢
        rw [List.filter_cons, List.filter_cons, h]
  | @insert key name v ms ms' spelled other _ ih =>
    rw [named?_cons_eq, spelled]
    generalize named? ms = fields, named? ms' = fields' at ih ⊢
    cases ih with
    | none => exact .none
    | some h =>
      refine .some ?_
      unfold known at h ⊢
      rw [h, List.filter_cons_of_neg (by simpa using other)]

/-! ## Looking the fields up -/

theorem rel_imp {α : Type} {r r' : α → α → Prop} {a b : Option α} (h : Option.Rel r a b)
    (himp : ∀ a b, r a b → r' a b) : Option.Rel r' a b := by
  cases h with
  | none => exact .none
  | some h => exact .some (himp _ _ h)

theorem lookup_eq_of_perm {α : Type} {fields fields' : List (String × α)} (h : fields.Perm fields')
    (hn : (fields.map Prod.fst).Nodup) (name : String) : fields.lookup name = fields'.lookup name := by
  induction h with
  | nil => rfl
  | cons f _ ih =>
    obtain ⟨found, v⟩ := f
    rw [List.map_cons, List.nodup_cons] at hn
    rw [List.lookup_cons, List.lookup_cons, ih hn.2]
  | swap f f' fields =>
    obtain ⟨found, v⟩ := f
    obtain ⟨found', v'⟩ := f'
    have hne : found' ≠ found := fun heq => by simp [heq] at hn
    simp only [List.lookup_cons]
    by_cases hf : name = found
    · subst hf
      simp [beq_eq_false_iff_ne.2 hne.symm]
    · simp [beq_eq_false_iff_ne.2 hf]
  | trans h _ ih ih' =>
    have hn' := (h.map Prod.fst).nodup_iff.1 hn
    exact (ih hn).trans (ih' hn')

/-- **The order of the members does not matter to what is looked up.** -/
theorem Value.fields?_perm (h : ms.Perm ms') (names : List String) (least : Nat) :
    Option.Rel (fun fields fields' : Fields => ∀ name, fields.lookup name = fields'.lookup name)
      ((Value.object ms).fields? names least) ((Value.object ms').fields? names least) := by
  rw [fields?_object, fields?_object]
  have hnamed := named?_perm h
  generalize named? ms = fields, named? ms' = fields' at hnamed ⊢
  cases hnamed with
  | none => exact .none
  | @some fields fields' hperm =>
    have hknown : (known names fields).Perm (known names fields') := hperm.filter _
    have hiff := (hknown.map Prod.fst).nodup_iff
    simp only [Option.bind_some]
    by_cases hn : ((known names fields).map Prod.fst).Nodup
    · rw [if_pos hn, if_pos (hiff.1 hn)]
      exact .some (lookup_eq_of_perm hknown hn)
    · rw [if_neg hn, if_neg (hn ∘ hiff.2)]
      exact .none

/-- **Members that nobody asks for do not matter.** -/
theorem Value.fields?_padded (h : Padded names ms ms') (least : Nat) :
    (Value.object ms).fields? names least = (Value.object ms').fields? names least := by
  rw [fields?_object, fields?_object]
  have hnamed := named?_padded h
  generalize named? ms = fields, named? ms' = fields' at hnamed ⊢
  cases hnamed with
  | none => rfl
  | some hknown => simp only [Option.bind_some, hknown]

theorem lookup_replaced {α : Type} (before after : List (String × α)) (name : String) (v v' : α) (other : String) :
    (before ++ (name, v) :: after).lookup other = (before ++ (name, v') :: after).lookup other ∨
      (other = name ∧ (before ++ (name, v) :: after).lookup other = some v ∧
        (before ++ (name, v') :: after).lookup other = some v') := by
  rw [List.lookup_append, List.lookup_append, List.lookup_cons, List.lookup_cons]
  cases before.lookup other with
  | some w => exact .inl rfl
  | none =>
    by_cases hother : other = name
    · simp [hother]
    · simp [beq_eq_false_iff_ne.2 hother]

theorem Value.fields?_replaced (before after : List Member) {key : Content} {name : String}
    (spelled : Content.text? key = some name) (v v' : Value) (names : List String) (least : Nat) :
    Option.Rel (fun fields fields' : Fields => ∀ other, fields.lookup other = fields'.lookup other ∨
        (other = name ∧ fields.lookup other = some v ∧ fields'.lookup other = some v'))
      ((Value.object (before ++ (key, v) :: after)).fields? names least)
      ((Value.object (before ++ (key, v') :: after)).fields? names least) := by
  simp only [fields?_object, named?_append, named?_cons_eq, spelled, Option.bind_some]
  cases named? before with
  | none => exact .none
  | some fb =>
    cases named? after with
    | none => exact .none
    | some fa =>
      -- both sides have the same names, so no name stands twice in both or in neither
      simp only [Option.bind_some, Option.map_some, known, List.filter_append, List.filter_cons]
      by_cases hname : names.contains name = true
      · simp only [if_pos hname, List.map_append, List.map_cons]
        split
        · exact .some (lookup_replaced _ _ _ _ _)
        · exact .none
      · simp only [if_neg hname]
        split
        · exact .some fun _ => .inl rfl
        · exact .none

end Json

namespace Inbound

open Json (Content Fields Member Token Value)

def envelopeNames : List String := ["ct", "cmd", "ack", "sw", "urls"]

/-- An entry of the list of downloads with the members of its object in another order or among others. -/
inductive Download.Rewritten : Value → Value → Prop where
  | same (v : Value) : Download.Rewritten v v
  | perm {ms ms' : List Member} (h : ms.Perm ms') : Download.Rewritten (.object ms) (.object ms')
  | padded {ms ms' : List Member} (h : Json.Padded downloadNames ms ms') : Download.Rewritten (.object ms) (.object ms')

/-- Members that differ in their layout alone: in their order, in the members that nobody asks for, and in both also
inside the entries of the list of downloads. -/
inductive Envelope.Rewritten : List Member → List Member → Prop where
  | perm {ms ms' : List Member} (h : ms.Perm ms') : Envelope.Rewritten ms ms'
  | padded {ms ms' : List Member} (h : Json.Padded envelopeNames ms ms') : Envelope.Rewritten ms ms'
  | entries (before after : List Member) {key : Content} {items items' : List Value}
    (spelled : Content.text? key = some "urls") (h : List.Forall₂ Download.Rewritten items items') :
    Envelope.Rewritten (before ++ (key, .array items) :: after) (before ++ (key, .array items') :: after)
  | symm {ms ms' : List Member} (h : Envelope.Rewritten ms ms') : Envelope.Rewritten ms' ms
  | trans {ms ms' ms'' : List Member} (h : Envelope.Rewritten ms ms') (h' : Envelope.Rewritten ms' ms'') :
    Envelope.Rewritten ms ms''

theorem Download.ofJson?_congr {v v' : Value}
    (h : Option.Rel (fun fields fields' : Fields => ∀ name, fields.lookup name = fields'.lookup name)
      (v.fields? downloadNames 0) (v'.fields? downloadNames 0)) : Download.ofJson? v = Download.ofJson? v' := by
  simp only [downloadNames] at h
  unfold Download.ofJson?
  generalize v.fields? ["url", "fileName", "sha256"] 0 = fields,
    v'.fields? ["url", "fileName", "sha256"] 0 = fields' at h ⊢
  cases h with
  | none => rfl
  | some h => simp only [textField?, Option.bind_eq_bind, Option.bind_some, h]

theorem Download.Rewritten.ofJson?_eq {v v' : Value} (h : Download.Rewritten v v') :
    Download.ofJson? v = Download.ofJson? v' := by
  cases h with
  | same => rfl
  | perm h => exact ofJson?_congr (Value.fields?_perm h downloadNames 0)
  | padded h =>
    unfold Download.ofJson?
    rw [← downloadNames, Value.fields?_padded h 0]

theorem downloads?_rewritten {items items' : List Value} (h : List.Forall₂ Download.Rewritten items items') :
    downloads? (some (.array items)) = downloads? (some (.array items')) := by
  simp only [downloads?, Value.items?, Option.bind_eq_bind, Option.bind_some]
  induction h with
  | nil => rfl
  | cons hv _ ih => rw [List.mapM_cons, List.mapM_cons, hv.ofJson?_eq, ih]

theorem Envelope.ofJson?_congr {v v' : Value}
    (h : Option.Rel (fun fields fields' : Fields => (∀ name ≠ "urls", fields.lookup name = fields'.lookup name) ∧
        downloads? (fields.lookup "urls") = downloads? (fields'.lookup "urls"))
      (v.fields? envelopeNames 1) (v'.fields? envelopeNames 1)) : Envelope.ofJson? v = Envelope.ofJson? v' := by
  simp only [envelopeNames] at h
  unfold Envelope.ofJson?
  generalize v.fields? ["ct", "cmd", "ack", "sw", "urls"] 1 = fields,
    v'.fields? ["ct", "cmd", "ack", "sw", "urls"] 1 = fields' at h ⊢
  cases h with
  | none => rfl
  | some h =>
    obtain ⟨hsame, hurls⟩ := h
    simp only [textField?, Option.bind_eq_bind, Option.bind_some, hurls, hsame "ct" (by decide),
      hsame "cmd" (by decide), hsame "ack" (by decide), hsame "sw" (by decide)]

theorem Envelope.Rewritten.ofJson?_eq {ms ms' : List Member} (h : Envelope.Rewritten ms ms') :
    Envelope.ofJson? (.object ms) = Envelope.ofJson? (.object ms') := by
  induction h with
  | perm h =>
    refine ofJson?_congr (Json.rel_imp (Value.fields?_perm h envelopeNames 1) fun fields fields' hlookup => ?_)
    exact ⟨fun name _ => hlookup name, by rw [hlookup "urls"]⟩
  | padded h =>
    unfold Envelope.ofJson?
    rw [← envelopeNames, Value.fields?_padded h 1]
  | @entries before after key items items' spelled h =>
    have hfields := Value.fields?_replaced before after spelled (.array items) (.array items') envelopeNames 1
    refine ofJson?_congr (Json.rel_imp hfields fun fields fields' hlookup => ?_)
    refine ⟨fun name hname => (hlookup name).resolve_right fun hr => hname hr.1, ?_⟩
    rcases hlookup "urls" with hsame | ⟨-, hv, hv'⟩
    · rw [hsame]
    · rw [hv, hv', downloads?_rewritten h]
  | symm _ ih => exact ih.symm
  | trans _ _ ih ih' => exact ih.trans ih'

/-- **Payloads whose messages differ in their layout alone are decoded to the same result**, be it a message or an
error: neither the order of the members counts, nor members that nobody asks for, nor blanks. -/
theorem parse_eq_of_rewritten {ms ms' : List Member} {payload payload' : Bytes} (h : Envelope.Rewritten ms ms')
    (hw : Json.Written (Value.object ms).tokens payload) (hw' : Json.Written (Value.object ms').tokens payload') :
    parse payload = parse payload' := by
  have henvelope : Envelope.parse? payload = Envelope.parse? payload' := by
    simp only [Envelope.parse?, Value.parse?_of_written hw, Value.parse?_of_written hw', Option.bind_eq_bind,
      Option.bind_some]
    exact h.ofJson?_eq
  simp only [parse, henvelope]

def plainOffer : Bytes := Bytes.ofText "\x7b\"ct\":1,\"sw\":\"2\",\"urls\":[\x7b\"url\":\"https://h/f\"\x7d]\x7d"

def paddedOffer : Bytes := Bytes.ofText
  "\x7b\"v\":[1e400,\x7b\x7d], \"urls\":[\x7b\"hw\":null,\"url\":\"https://h/f\"\x7d],\"sw\":\"2\",\"ct\":1\x7d"

def plainMembers : List Member :=
  [((Bytes.ofText "ct").map .octet, .number [0x31]),
    ((Bytes.ofText "sw").map .octet, .string ((Bytes.ofText "2").map .octet)),
    ((Bytes.ofText "urls").map .octet, .array [.object [((Bytes.ofText "url").map .octet,
      .string ((Bytes.ofText "https://h/f").map .octet))]])]

def paddedMembers : List Member :=
  [((Bytes.ofText "v").map .octet, .array [.number (Bytes.ofText "1e400"), .object []]),
    ((Bytes.ofText "urls").map .octet, .array [.object [((Bytes.ofText "hw").map .octet, .null),
      ((Bytes.ofText "url").map .octet, .string ((Bytes.ofText "https://h/f").map .octet))]]),
    ((Bytes.ofText "sw").map .octet, .string ((Bytes.ofText "2").map .octet)),
    ((Bytes.ofText "ct").map .octet, .number [0x31])]

theorem isWhole_one : Json.IsWhole [0x31] := .digits rfl (by decide) (by simp)

theorem isNumber_one : Json.IsNumber [0x31] := .mk (.inl rfl) isWhole_one .none .none

theorem plainMembers_written : Json.Written (Value.object plainMembers).tokens plainOffer :=
  .token .openObject <|
    .token (Token.writes_octets (Bytes.ofText "ct") (by decide +kernel)) <| .token .colon <|
    .token (.number isNumber_one) <| .token .comma <|
    .token (Token.writes_octets (Bytes.ofText "sw") (by decide +kernel)) <| .token .colon <|
    .token (Token.writes_octets (Bytes.ofText "2") (by decide +kernel)) <| .token .comma <|
    .token (Token.writes_octets (Bytes.ofText "urls") (by decide +kernel)) <| .token .colon <|
    .token .openArray <| .token .openObject <|
    .token (Token.writes_octets (Bytes.ofText "url") (by decide +kernel)) <| .token .colon <|
    .token (Token.writes_octets (Bytes.ofText "https://h/f") (by decide +kernel)) <| .token .closeObject <|
    .token .closeArray <| .token .closeObject <| .nil (by decide +kernel)

theorem paddedMembers_written : Json.Written (Value.object paddedMembers).tokens paddedOffer := by
  have hexponent : Json.IsExponent (Bytes.ofText "e400") := .mark (.inl rfl) (.inl rfl) ⟨by simp, by decide +kernel⟩
  have hlarge : Json.IsNumber (Bytes.ofText "1e400") := .mk (.inl rfl) isWhole_one .none hexponent
  exact .token .openObject <|
    .token (Token.writes_octets (Bytes.ofText "v") (by decide +kernel)) <| .token .colon <|
    .token .openArray <| .token (.number hlarge) <| .token .comma <| .token .openObject <| .token .closeObject <|
    .token .closeArray <| .token .comma <| .blank rfl <|
    .token (Token.writes_octets (Bytes.ofText "urls") (by decide +kernel)) <| .token .colon <|
    .token .openArray <| .token .openObject <|
    .token (Token.writes_octets (Bytes.ofText "hw") (by decide +kernel)) <| .token .colon <|
    .token .null <| .token .comma <|
    .token (Token.writes_octets (Bytes.ofText "url") (by decide +kernel)) <| .token .colon <|
    .token (Token.writes_octets (Bytes.ofText "https://h/f") (by decide +kernel)) <| .token .closeObject <|
    .token .closeArray <| .token .comma <|
    .token (Token.writes_octets (Bytes.ofText "sw") (by decide +kernel)) <| .token .colon <|
    .token (Token.writes_octets (Bytes.ofText "2") (by decide +kernel)) <| .token .comma <|
    .token (Token.writes_octets (Bytes.ofText "ct") (by decide +kernel)) <| .token .colon <|
    .token (.number isNumber_one) <| .token .closeObject <| .nil (by decide +kernel)

theorem plainMembers_rewritten : Envelope.Rewritten plainMembers paddedMembers := by
  have htext : ∀ s : String, Content.text? ((Bytes.ofText s).map .octet) = some s :=
    fun s => Content.text?_of_spells (Content.spells_ofText s)
  have hentry : Download.Rewritten (.object [((Bytes.ofText "url").map .octet,
      .string ((Bytes.ofText "https://h/f").map .octet))]) (.object [((Bytes.ofText "hw").map .octet, .null),
      ((Bytes.ofText "url").map .octet, .string ((Bytes.ofText "https://h/f").map .octet))]) :=
    .padded (.insert .null (htext "hw") (by decide) (.keep _ .nil))
  exact .trans (.entries (plainMembers.take 2) [] (htext "urls") (.cons hentry .nil)) <|
    .trans (.perm (List.reverse_perm _).symm) <|
    .padded (.insert _ (htext "v") (by decide) (.keep _ (.keep _ (.keep _ .nil))))

theorem paddedOffer_parses :
    Envelope.Rewritten plainMembers paddedMembers ∧ Json.Written (Value.object plainMembers).tokens plainOffer ∧
      Json.Written (Value.object paddedMembers).tokens paddedOffer ∧ parse plainOffer = parse paddedOffer ∧
      (parse paddedOffer).isOk = true :=
  ⟨plainMembers_rewritten, plainMembers_written, paddedMembers_written,
    parse_eq_of_rewritten plainMembers_rewritten plainMembers_written paddedMembers_written, by decide +kernel⟩

end Inbound
end Firmware
