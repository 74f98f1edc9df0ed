import Firmware.Json.Record
import Firmware.Json.Text
import Firmware.Proofs.Lexing
import Firmware.Text.Decimal
/-!
# Document — what a JSON text says

A `Document` is what is left of a JSON text once its strings are read: texts in the place of contents, and numbers in
the place of digits.  `Document.Writes` relates it to every payload that says it, whatever escapes spell a text and
wherever blanks stand.  The main statements are that a payload that writes a document is read as a value that means the
document, and that a record whose members say what is looked for is read field by field.
-/
namespace Firmware

theorem Bytes.ofText_ofList (cs : List Char) : Bytes.ofText (String.ofList cs) = cs.flatMap String.utf8EncodeChar := by
  simp [Bytes.ofText, List.utf8Encode]

namespace Json

/-! ## What the content of a string spells -/

def utf16 (c : Char) : List Nat :=
  if c.toNat < 0x10000 then [c.toNat]
  else [0xD800 + (c.toNat - 0x10000) / 0x400, 0xDC00 + (c.toNat - 0x10000) % 0x400]

/-- Each character stands there as its octets or as escapes of its units. -/
inductive Content.Spells : List Char → Content → Prop where
  | nil : Spells [] []
  | plain {c : Char} {cs : List Char} {content : Content} (h : Spells cs content) :
    Spells (c :: cs) ((String.utf8EncodeChar c).map .octet ++ content)
  | escaped {c : Char} {cs : List Char} {content : Content} (h : Spells cs content) :
    Spells (c :: cs) ((utf16 c).map .unit ++ content)

theorem Content.spells_ofText (s : String) : Spells s.toList ((Bytes.ofText s).map .octet) := by
  have hs : Bytes.ofText s = s.toList.flatMap String.utf8EncodeChar := by
    rw [← Bytes.ofText_ofList, String.ofList_toList]
  rw [hs]
  generalize s.toList = cs
  induction cs with
  | nil => exact .nil
  | cons c cs ih => simpa using Spells.plain ih

theorem octetsFrom?_octets (bs : Bytes) (done : Bytes) (rest : Content) :
    octetsFrom? done (bs.map .octet ++ rest) = octetsFrom? (bs.reverse ++ done) rest := by
  induction bs generalizing done with
  | nil => rfl
  | cons b bs ih => simp [octetsFrom?, ih]

theorem octetsFrom?_unit {u : Nat} (hh : isHighSurrogate u = false) (hl : isLowSurrogate u = false) (done : Bytes)
    (rest : Content) :
    octetsFrom? done (.unit u :: rest) = octetsFrom? ((String.utf8EncodeChar (Char.ofNat u)).reverse ++ done) rest := by
  rcases rest with _ | ⟨_ | _, rest⟩ <;> simp [octetsFrom?, hh, hl]

theorem octetsFrom?_utf16 (c : Char) (done : Bytes) (rest : Content) :
    octetsFrom? done ((utf16 c).map .unit ++ rest) =
      octetsFrom? ((String.utf8EncodeChar c).reverse ++ done) rest := by
  have hvalid : c.toNat < 0xD800 ∨ 0xDFFF < c.toNat ∧ c.toNat < 0x110000 := c.valid
  unfold utf16
  split
  · have hh : isHighSurrogate c.toNat = false := by simp [isHighSurrogate]; omega
    have hl : isLowSurrogate c.toNat = false := by simp [isLowSurrogate]; omega
    simpa using octetsFrom?_unit hh hl done rest
  · have hhigh : isHighSurrogate (0xD800 + (c.toNat - 0x10000) / 0x400) = true := by
      simp [isHighSurrogate]; omega
    have hlow : isLowSurrogate (0xDC00 + (c.toNat - 0x10000) % 0x400) = true := by
      simp [isLowSurrogate]; omega
    have hjoin : joinSurrogates (0xD800 + (c.toNat - 0x10000) / 0x400) (0xDC00 + (c.toNat - 0x10000) % 0x400) =
        c.toNat := by
      unfold joinSurrogates
      omega
    simp [octetsFrom?, hhigh, hlow, hjoin]

theorem octetsFrom?_of_spells {cs : List Char} {content : Content} (h : Content.Spells cs content) (done : Bytes) :
    octetsFrom? done content = some (done.reverse ++ cs.flatMap String.utf8EncodeChar) := by
  induction h generalizing done with
  | nil => simp [octetsFrom?]
  | plain _ ih => simp [octetsFrom?_octets, ih]
  | escaped _ ih => simp [octetsFrom?_utf16, ih]

theorem Content.text?_of_spells {s : String} {content : Content} (h : Spells s.toList content) :
    Content.text? content = some s := by
  have hs : s.toList.flatMap String.utf8EncodeChar = Bytes.ofText s := by
    rw [← Bytes.ofText_ofList, String.ofList_toList]
  simp [Content.text?, octetsFrom?_of_spells h, hs, Bytes.text?_ofText]

/-! ## Numbers in digits -/

theorem octet_of_isDigit {c : Char} (h : c.isDigit = true) :
    String.utf8EncodeChar c = [c.toUInt8] ∧ isDigit c.toUInt8 = true ∧
      c.toUInt8.toNat - 0x30 = c.toNat - '0'.toNat := by
  have all : ∀ k < 58, 48 ≤ k → String.utf8EncodeChar (Char.ofNat k) = [(Char.ofNat k).toUInt8] ∧
      isDigit (Char.ofNat k).toUInt8 = true ∧
      (Char.ofNat k).toUInt8.toNat - 0x30 = (Char.ofNat k).toNat - '0'.toNat := by decide
  have hc : 48 ≤ c.toNat ∧ c.toNat ≤ 57 := by
    simp only [Char.isDigit, Bool.and_eq_true, decide_eq_true_eq, UInt32.le_iff_toNat_le] at h
    exact h
  simpa using all c.toNat (by omega) hc.1

theorem digits_of_isDigit {cs : List Char} (h : ∀ c ∈ cs, c.isDigit = true) :
    Bytes.ofText (String.ofList cs) = cs.map Char.toUInt8 ∧ (cs.map Char.toUInt8).all isDigit = true ∧
      ∀ n, (cs.map Char.toUInt8).foldl (fun n d => 10 * n + (d.toNat - 0x30)) n = Nat.ofDigitChars 10 cs n := by
  rw [Bytes.ofText_ofList]
  induction cs with
  | nil => simp
  | cons c cs ih =>
    obtain ⟨hc, hcs⟩ := List.forall_mem_cons.1 h
    obtain ⟨hoctet, hdigit, hvalue⟩ := octet_of_isDigit hc
    obtain ⟨ih₁, ih₂, ih₃⟩ := ih hcs
    refine ⟨by simp [hoctet, ih₁], by simp [hdigit, ih₂], fun n => ?_⟩
    rw [List.map_cons, List.foldl_cons, hvalue, ih₃, Nat.ofDigitChars_cons]

theorem Value.natBelow?_text {n bound : Nat} (h : n < bound) :
    Value.natBelow? bound (.number (Bytes.ofText (Decimal.text n))) = some n := by
  have hdigits : ∀ c ∈ Nat.toDigits 10 n, c.isDigit = true := fun c hc =>
    Nat.isDigit_of_mem_toDigits (by decide) (by decide) hc
  obtain ⟨hoctets, hall, hvalue⟩ := digits_of_isDigit hdigits
  have hn : Nat.ofDigitChars 10 (Nat.toDigits 10 n) 0 = n := Nat.ofDigitChars_toDigits (by decide) (by decide)
  simp only [natBelow?, Decimal.text, hoctets, hall, if_true, hvalue, hn, if_pos h]

/-! ## Documents -/

inductive Document where
  | null
  | boolean (value : Bool)
  | number (n : Nat)
  | text (s : String)
  | array (items : List Document)
  | object (members : List (String × Document))

mutual

inductive Document.Means : Document → Value → Prop where
  | null : Document.Means .null .null
  | boolean (b : Bool) : Document.Means (.boolean b) (.boolean b)
  | number (n : Nat) : Document.Means (.number n) (.number (Bytes.ofText (Decimal.text n)))
  | text {s : String} {content : Content} (h : Content.Spells s.toList content) :
    Document.Means (.text s) (.string content)
  | array {items : List Document} {vs : List Value} (h : ItemsMean items vs) :
    Document.Means (.array items) (.array vs)
  | object {members : List (String × Document)} {ms : List Member} (h : MembersMean members ms) :
    Document.Means (.object members) (.object ms)

inductive ItemsMean : List Document → List Value → Prop where
  | nil : ItemsMean [] []
  | cons {d : Document} {items : List Document} {v : Value} {vs : List Value} (hd : Document.Means d v)
    (h : ItemsMean items vs) : ItemsMean (d :: items) (v :: vs)

inductive MembersMean : List (String × Document) → List Member → Prop where
  | nil : MembersMean [] []
  | cons {name : String} {d : Document} {members : List (String × Document)} {key : Content} {v : Value}
    {ms : List Member} (hk : Content.Spells name.toList key) (hd : Document.Means d v) (h : MembersMean members ms) :
    MembersMean ((name, d) :: members) ((key, v) :: ms)

end

/-- The octets are a JSON text that says what the document says. -/
def Document.Writes (doc : Document) (payload : Bytes) : Prop := ∃ v, doc.Means v ∧ Written v.tokens payload

/-- **A payload that writes a document is read as a value that means the document.** -/
theorem Document.Writes.parse? {doc : Document} {payload : Bytes} (h : doc.Writes payload) :
    ∃ v, Value.parse? payload = some v ∧ doc.Means v := by
  obtain ⟨v, hmeans, hwritten⟩ := h
  exact ⟨v, Value.parse?_of_written hwritten, hmeans⟩

/-! ## Records -/

theorem named?_cons {key : Content} {name : String} {v : Value} {ms : List Member} {fields : Fields}
    (hk : Content.text? key = some name) (h : named? ms = some fields) :
    named? ((key, v) :: ms) = some ((name, v) :: fields) := by
  unfold named? at h ⊢
  rw [List.mapM_cons, h]
  simp [hk]

theorem named?_of_means {members : List (String × Document)} {ms : List Member} (h : MembersMean members ms) :
    ∃ fields, named? ms = some fields ∧ fields.map Prod.fst = members.map Prod.fst ∧
      ∀ name, Option.Rel Document.Means (members.lookup name) (fields.lookup name) := by
  induction members generalizing ms with
  | nil =>
    cases h
    exact ⟨[], rfl, rfl, fun _ => .none⟩
  | cons m members ih =>
    cases h with
    | @cons name d _ key v ms hk hd h =>
      obtain ⟨fields, hfields, hnames, hlookup⟩ := ih h
      refine ⟨(name, v) :: fields, named?_cons (Content.text?_of_spells hk) hfields, by simp [hnames], fun name' => ?_⟩
      by_cases hname : name' = name
      · subst hname
        simpa using Option.Rel.some hd
      · have hne : (name' == name) = false := beq_eq_false_iff_ne.2 hname
        simpa only [List.lookup_cons, hne] using hlookup name'

theorem lookup_filter_contains {α : Type} {names : List String} {name : String} (h : name ∈ names)
    (fields : List (String × α)) :
    (fields.filter fun f => names.contains f.1).lookup name = fields.lookup name := by
  induction fields with
  | nil => rfl
  | cons f fields ih =>
    obtain ⟨key, a⟩ := f
    by_cases hkey : name = key
    · subst hkey
      simp [h]
    · have hne : (name == key) = false := beq_eq_false_iff_ne.2 hkey
      rw [List.filter_cons]
      split <;> simp only [List.lookup_cons, hne, ih]

theorem Value.fields?_object_eq_some_iff {members : List Member} {names : List String} {least : Nat} {known : Fields} :
    (Value.object members).fields? names least = some known ↔
      ∃ fields, named? members = some fields ∧ ((fields.filter fun f => names.contains f.1).map Prod.fst).Nodup ∧
        fields.filter (fun f => names.contains f.1) = known := by
  simp only [fields?, Option.bind_eq_bind, Option.bind_eq_some_iff, Option.ite_none_right_eq_some, Option.some.injEq]

theorem Value.fields?_array_eq_some_iff {items : List Value} {names : List String} {least : Nat} {known : Fields} :
    (Value.array items).fields? names least = some known ↔
      (least ≤ items.length ∧ items.length ≤ names.length) ∧ names.zip items = known := by
  simp only [fields?, Option.ite_none_right_eq_some, Option.some.injEq]

theorem Value.fields?_of_named {members : List Member} {fields : Fields} (named : named? members = some fields)
    (distinct : (fields.map Prod.fst).Nodup) (names : List String) (least : Nat) :
    ∃ known, (Value.object members).fields? names least = some known ∧
      ∀ name ∈ names, known.lookup name = fields.lookup name := by
  have hknown : ((fields.filter fun f => names.contains f.1).map Prod.fst).Nodup :=
    distinct.sublist (List.filter_sublist.map _)
  exact ⟨_, fields?_object_eq_some_iff.2 ⟨fields, named, hknown, rfl⟩, fun name h => lookup_filter_contains h fields⟩

/-- **A record is read field by field.** -/
theorem Value.fields?_of_means {members : List (String × Document)} {v : Value} (h : (Document.object members).Means v)
    (hd : (members.map Prod.fst).Nodup) (names : List String) (least : Nat) :
    ∃ fields, v.fields? names least = some fields ∧
      ∀ name ∈ names, Option.Rel Document.Means (members.lookup name) (fields.lookup name) := by
  cases h with
  | object h =>
    obtain ⟨fields, hfields, hnames, hlookup⟩ := named?_of_means h
    obtain ⟨known, hknown, hfound⟩ := fields?_of_named hfields (hnames ▸ hd) names least
    exact ⟨known, hknown, fun name hname => hfound name hname ▸ hlookup name⟩

/-- The members say `a` under the name; nothing is said by `null` or by no such member. -/
def Says {α : Type} (members : List (String × Document)) (name : String) (write : α → Document) : Option α → Prop
  | some a => members.lookup name = some (write a)
  | none => members.lookup name = none ∨ members.lookup name = some .null

theorem optional?_of_says {α : Type} {members : List (String × Document)} {name : String} {write : α → Document}
    {read : Value → Option α} {a : Option α} {v : Option Value} (hs : Says members name write a)
    (hv : Option.Rel Document.Means (members.lookup name) v) (hnull : read .null = none)
    (hread : ∀ b ∈ a, ∀ v, (write b).Means v → read v = some b) : optional? read v = some a := by
  cases a with
  | none =>
    rcases hs with hs | hs
    · rw [hs] at hv
      cases hv
      rfl
    · rw [hs] at hv
      cases hv with
      | some hv =>
        cases hv
        rfl
  | some b =>
    rw [show members.lookup name = some (write b) from hs] at hv
    cases hv with
    | @some _ v hv =>
      have hb := hread b rfl v hv
      cases v with
      | null => simp [hnull] at hb
      | _ => simp [optional?, hb]

theorem optional?_text {members : List (String × Document)} {name : String} {s : Option String} {v : Option Value}
    (hs : Says members name .text s) (hv : Option.Rel Document.Means (members.lookup name) v) :
    optional? Value.text? v = some s := by
  refine optional?_of_says hs hv rfl fun b _ v hm => ?_
  cases hm with
  | text h => exact Content.text?_of_spells h

theorem optional?_number {members : List (String × Document)} {name : String} {n : Option Nat} {v : Option Value}
    {bound : Nat} (hs : Says members name .number n) (hv : Option.Rel Document.Means (members.lookup name) v)
    (hn : ∀ k ∈ n, k < bound) : optional? (Value.natBelow? bound) v = some n := by
  refine optional?_of_says hs hv rfl fun b hb v hm => ?_
  cases hm
  exact Value.natBelow?_text (hn b hb)

end Json
end Firmware
