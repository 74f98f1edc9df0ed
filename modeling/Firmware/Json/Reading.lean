import Firmware.Json.Value
/-!
# Reading — the token reader takes exactly what the token writer makes

`Value.ofTokens?_eq_some` is the main statement: tokens read as a value exactly when they are the tokens of that value.
One half follows each value through the reader, whatever brackets are open around it; the other half says which tokens
a reader has taken to be where it stands.
-/
namespace Firmware.Json

/-! ## What is written reads back -/

theorem Expect.feed_firstItem {t : Token} (h : t ≠ .closeArray) (open_ : List Frame) :
    feed (.firstItem open_) t = feed (.value (.array [] :: open_)) t := by
  cases t <;> first | contradiction | rfl

theorem Value.tokens_eq_cons (v : Value) : ∃ t ts, v.tokens = t :: ts ∧ t ≠ .closeArray := by
  match v with
  | .null | .boolean _ | .number _ | .string _ | .array [] | .array (_ :: _) | .object [] | .object (_ :: _) =>
    simp [Value.tokens]

theorem foldlM_firstItem (v : Value) (ts : List Token) (open_ : List Frame) :
    (v.tokens ++ ts).foldlM Expect.feed (.firstItem open_) =
      (v.tokens ++ ts).foldlM Expect.feed (.value (.array [] :: open_)) := by
  obtain ⟨t, us, ht, hne⟩ := v.tokens_eq_cons
  simp only [ht, List.cons_append, List.foldlM_cons, Expect.feed_firstItem hne]

mutual

theorem foldlM_tokens (v : Value) (open_ : List Frame) :
    v.tokens.foldlM Expect.feed (.value open_) = some (Expect.afterValue v open_) := by
  match v with
  | .null | .boolean _ | .number _ | .string _ | .array [] | .object [] => rfl
  | .array (v :: vs) =>
    have hv := foldlM_tokens v (.array [] :: open_)
    have hvs := foldlM_moreItems vs [v] open_
    have hf := foldlM_firstItem v (moreItems vs) open_
    simp only [Value.tokens, List.cons_append, List.foldlM_cons, Expect.feed, Expect.beginValue,
      Option.bind_eq_bind, Option.bind_some, hf]
    simpa [List.foldlM_append, hv, Expect.afterValue] using hvs
  | .object ((k, v) :: ms) =>
    have hv := foldlM_tokens v (.member [] k :: open_)
    have hms := foldlM_moreMembers ms [(k, v)] open_
    simp only [Value.tokens, List.cons_append, List.foldlM_cons, Expect.feed, Expect.beginValue,
      Option.bind_eq_bind, Option.bind_some]
    simpa [List.foldlM_append, hv, Expect.afterValue] using hms

theorem foldlM_moreItems (vs : List Value) (done : List Value) (open_ : List Frame) :
    (moreItems vs).foldlM Expect.feed (.nextItem done open_) =
      some (Expect.afterValue (.array (done.reverse ++ vs)) open_) := by
  match vs with
  | [] => simp [moreItems, Expect.feed]
  | v :: vs =>
    have hv := foldlM_tokens v (.array done :: open_)
    have hvs := foldlM_moreItems vs (v :: done) open_
    simp only [moreItems, List.cons_append, List.foldlM_cons, Expect.feed, Option.bind_eq_bind, Option.bind_some]
    simpa [List.foldlM_append, hv, Expect.afterValue] using hvs

theorem foldlM_moreMembers (ms : List (Content × Value)) (done : List Member) (open_ : List Frame) :
    (moreMembers ms).foldlM Expect.feed (.nextMember done open_) =
      some (Expect.afterValue (.object (done.reverse ++ ms)) open_) := by
  match ms with
  | [] => simp [moreMembers, Expect.feed]
  | (k, v) :: ms =>
    have hv := foldlM_tokens v (.member done k :: open_)
    have hms := foldlM_moreMembers ms ((k, v) :: done) open_
    simp only [moreMembers, List.cons_append, List.foldlM_cons, Expect.feed, Option.bind_eq_bind, Option.bind_some]
    simpa [List.foldlM_append, hv, Expect.afterValue] using hms

end

/-! ## What reads was written -/

def itemsTaken (items : List Value) : List Token := items.flatMap fun v => v.tokens ++ [.comma]

def membersTaken (members : List Member) : List Token :=
  members.flatMap fun m => .string m.1 :: .colon :: m.2.tokens ++ [.comma]

def framesTaken : List Frame → List Token
  | [] => []
  | .array items :: open_ => framesTaken open_ ++ .openArray :: itemsTaken items.reverse
  | .member members key :: open_ =>
    framesTaken open_ ++ .openObject :: membersTaken members.reverse ++ [.string key, .colon]

theorem moreItems_append (vs : List Value) (v : Value) :
    moreItems (vs ++ [v]) = .comma :: itemsTaken vs ++ v.tokens ++ [.closeArray] := by
  induction vs with
  | nil => simp [moreItems, itemsTaken]
  | cons w ws ih => simp [moreItems, itemsTaken, ih]

theorem moreMembers_append (ms : List Member) (k : Content) (v : Value) :
    moreMembers (ms ++ [(k, v)]) =
      .comma :: membersTaken ms ++ .string k :: .colon :: v.tokens ++ [.closeObject] := by
  induction ms with
  | nil => simp [moreMembers, membersTaken]
  | cons w ws ih => simp [moreMembers, membersTaken, ih]

theorem tokens_array_append (vs : List Value) (v : Value) :
    (Value.array (vs ++ [v])).tokens = .openArray :: itemsTaken vs ++ v.tokens ++ [.closeArray] := by
  cases vs with
  | nil => simp [Value.tokens, moreItems, itemsTaken]
  | cons w ws => simp [Value.tokens, moreItems_append, itemsTaken]

theorem tokens_object_append (ms : List Member) (k : Content) (v : Value) :
    (Value.object (ms ++ [(k, v)])).tokens =
      .openObject :: membersTaken ms ++ .string k :: .colon :: v.tokens ++ [.closeObject] := by
  cases ms with
  | nil => simp [Value.tokens, moreMembers, membersTaken]
  | cons w ws => simp [Value.tokens, moreMembers_append, membersTaken]

/-- The tokens that a reader has taken to be where it stands. -/
def Expect.Taken (ts : List Token) : Expect → Prop
  | .value open_ => ts = framesTaken open_
  | .firstItem open_ => ts = framesTaken open_ ++ [.openArray]
  | .nextItem items open_ =>
    ∃ v vs, items = v :: vs ∧ ts = framesTaken open_ ++ .openArray :: itemsTaken vs.reverse ++ v.tokens
  | .firstMember open_ => ts = framesTaken open_ ++ [.openObject]
  | .name members open_ => ts = framesTaken open_ ++ .openObject :: membersTaken members.reverse
  | .colon members key open_ =>
    ts = framesTaken open_ ++ .openObject :: membersTaken members.reverse ++ [.string key]
  | .nextMember members open_ =>
    ∃ k v ms, members = (k, v) :: ms ∧
      ts = framesTaken open_ ++ .openObject :: membersTaken ms.reverse ++ .string k :: .colon :: v.tokens
  | .nothing v => ts = v.tokens

theorem Expect.taken_afterValue (v : Value) (open_ : List Frame) :
    (afterValue v open_).Taken (framesTaken open_ ++ v.tokens) := by
  match open_ with
  | [] => simp [afterValue, Taken, framesTaken]
  | .array items :: open_ => exact ⟨v, items, rfl, by simp [framesTaken]⟩
  | .member members key :: open_ => exact ⟨key, v, members, rfl, by simp [framesTaken]⟩

theorem Expect.taken_beginValue {open_ : List Frame} {t : Token} {e : Expect} (h : beginValue open_ t = some e) :
    e.Taken (framesTaken open_ ++ [t]) := by
  cases t <;> simp only [beginValue, Option.some.injEq, reduceCtorEq] at h <;> subst h
  case null => exact taken_afterValue .null open_
  case boolean b => exact taken_afterValue (.boolean b) open_
  case number digits => exact taken_afterValue (.number digits) open_
  case string content => exact taken_afterValue (.string content) open_
  case openArray => rfl
  case openObject => rfl

/-- **Each token taken is accounted for.** -/
theorem Expect.taken_feed {e e' : Expect} {ts : List Token} {t : Token} (h : e.Taken ts) (hf : feed e t = some e') :
    e'.Taken (ts ++ [t]) := by
  unfold feed at hf
  split at hf
  · subst h
    exact taken_beginValue hf
  · cases hf
    subst h
    simpa [Value.tokens] using taken_afterValue (.array []) _
  · subst h
    simpa [framesTaken, itemsTaken] using taken_beginValue hf
  · cases hf
    obtain ⟨v, vs, rfl, rfl⟩ := h
    simp [Taken, framesTaken, itemsTaken]
  · cases hf
    obtain ⟨v, vs, rfl, rfl⟩ := h
    simpa [tokens_array_append] using taken_afterValue (.array (vs.reverse ++ [v])) _
  · cases hf
    subst h
    simpa [Value.tokens] using taken_afterValue (.object []) _
  · cases hf
    subst h
    simp [Taken, membersTaken]
  · cases hf
    subst h
    simp [Taken]
  · cases hf
    subst h
    simp [Taken, framesTaken]
  · cases hf
    obtain ⟨k, v, ms, rfl, rfl⟩ := h
    simp [Taken, membersTaken]
  · cases hf
    obtain ⟨k, v, ms, rfl, rfl⟩ := h
    simpa [tokens_object_append] using taken_afterValue (.object (ms.reverse ++ [(k, v)])) _
  · cases hf

theorem Expect.taken_foldlM {ts us : List Token} {e e' : Expect} (h : e.Taken us)
    (hf : ts.foldlM feed e = some e') : e'.Taken (us ++ ts) := by
  induction ts generalizing e us with
  | nil =>
    cases hf
    simpa using h
  | cons t ts ih =>
    rw [List.foldlM_cons] at hf
    cases ht : feed e t with
    | none => simp [ht] at hf
    | some e'' =>
      simp only [ht, Option.bind_eq_bind, Option.bind_some] at hf
      simpa using ih (taken_feed h ht) hf

/-- **The reader takes exactly what the writer makes.** -/
theorem Value.ofTokens?_eq_some {ts : List Token} {v : Value} : ofTokens? ts = some v ↔ ts = v.tokens := by
  constructor
  · intro h
    unfold ofTokens? at h
    cases hf : ts.foldlM Expect.feed (.value []) with
    | none => simp [hf] at h
    | some e =>
      have h0 : (Expect.value []).Taken [] := by simp [Expect.Taken, framesTaken]
      have ht : e.Taken ts := by simpa using Expect.taken_foldlM h0 hf
      simp only [hf, Option.bind_eq_bind, Option.bind_some] at h
      unfold Expect.finish at h
      split at h
      · cases h
        exact ht
      · cases h
  · rintro rfl
    simp [ofTokens?, foldlM_tokens, Expect.afterValue, Expect.finish]

end Firmware.Json
