import Firmware.Proofs.Document
import Firmware.Settings.Json
/-!
# Printing — what a printed text says

`quoted`, `Decimal.text` and `braced` write a text without blanks, one token after the other.  `Printed` relates such a
text to the document that it says.  The main statement is that a printed text is read back as a value that means this
document and no other, and that no control character stands in it.
-/
namespace Firmware

theorem Bytes.ofText_append (s t : String) : Bytes.ofText (s ++ t) = Bytes.ofText s ++ Bytes.ofText t := by
  simp [Bytes.ofText]

theorem octet_of_utf8EncodeChar {c : Char} {b : UInt8} (h : b ∈ String.utf8EncodeChar c) :
    b.toNat = c.toNat ∨ 0x80 ≤ b.toNat := by
  have hc : c.val.toNat = c.toNat := rfl
  unfold String.utf8EncodeChar at h
  simp only [hc] at h
  split at h
  · simp only [List.mem_singleton] at h
    subst h
    rw [UInt8.toNat_ofNat']
    omega
  · right
    split at h
    · simp only [List.mem_cons, List.not_mem_nil, or_false] at h
      rcases h with rfl | rfl <;> rw [UInt8.toNat_ofNat'] <;> omega
    split at h
    · simp only [List.mem_cons, List.not_mem_nil, or_false] at h
      rcases h with rfl | rfl | rfl <;> rw [UInt8.toNat_ofNat'] <;> omega
    · simp only [List.mem_cons, List.not_mem_nil, or_false] at h
      rcases h with rfl | rfl | rfl | rfl <;> rw [UInt8.toNat_ofNat'] <;> omega

namespace Json

/-! ## A value says one document at most -/

theorem Content.Spells.unique {s s' : String} {content : Content} (h : Content.Spells s.toList content)
    (h' : Content.Spells s'.toList content) : s = s' :=
  Option.some.inj ((Content.text?_of_spells h).symm.trans (Content.text?_of_spells h'))

theorem Document.eq_number_of_means {doc : Document} {n : Nat}
    (h : doc.Means (.number (Bytes.ofText (Decimal.text n)))) : doc = .number n := by
  generalize hv : Value.number (Bytes.ofText (Decimal.text n)) = v at h
  cases h with
  | number m =>
    have hm := Value.natBelow?_text (show m < max n m + 1 by omega)
    rw [← hv, Value.natBelow?_text (show n < max n m + 1 by omega)] at hm
    rw [Option.some.inj hm]
  | _ => cases hv

mutual

theorem Document.Means.unique {doc doc' : Document} {v : Value} (h : doc.Means v) (h' : doc'.Means v) : doc = doc' := by
  cases h with
  | null => cases h'; rfl
  | boolean b => cases h'; rfl
  | number n => exact (Document.eq_number_of_means h').symm
  | text h =>
    cases h' with
    | text h' => rw [h.unique h']
  | array h =>
    cases h' with
    | array h' => rw [h.unique h']
  | object h =>
    cases h' with
    | object h' => rw [h.unique h']

theorem ItemsMean.unique {items items' : List Document} {vs : List Value} (h : ItemsMean items vs)
    (h' : ItemsMean items' vs) : items = items' := by
  cases h with
  | nil => cases h'; rfl
  | cons hd h =>
    cases h' with
    | cons hd' h' => rw [hd.unique hd', h.unique h']

theorem MembersMean.unique {members members' : List (String × Document)} {ms : List Member}
    (h : MembersMean members ms) (h' : MembersMean members' ms) : members = members' := by
  cases h with
  | nil => cases h'; rfl
  | cons hk hd h =>
    cases h' with
    | cons hk' hd' h' => rw [hk.unique hk', hd.unique hd', h.unique h']

end

/-! ## Texts without blanks -/

/-- The octets write the tokens one after the other, and nothing between them. -/
inductive Compact : List Token → Bytes → Prop where
  | nil : Compact [] []
  | token {t : Token} {ts : List Token} {bs rest : Bytes} (ht : t.Writes bs) (h : Compact ts rest) :
    Compact (t :: ts) (bs ++ rest)

theorem Compact.append {ts ts' : List Token} {bs bs' : Bytes} (h : Compact ts bs) (h' : Compact ts' bs') :
    Compact (ts ++ ts') (bs ++ bs') := by
  induction h with
  | nil => exact h'
  | token ht _ ih =>
    rw [List.cons_append, List.append_assoc]
    exact .token ht ih

theorem Compact.single {t : Token} {bs : Bytes} (h : t.Writes bs) : Compact [t] bs := by
  simpa using Compact.token h .nil

theorem Compact.written_append {ts ts' : List Token} {bs rest : Bytes} (h : Compact ts bs) (h' : Written ts' rest) :
    Written (ts ++ ts') (bs ++ rest) := by
  induction h with
  | nil => exact h'
  | token ht _ ih =>
    rw [List.cons_append, List.append_assoc]
    exact .token ht ih

theorem Compact.written {ts : List Token} {bs : Bytes} (h : Compact ts bs) : Written ts bs := by
  simpa using h.written_append (.nil (by simp) : Written [] [])

/-! ## No control characters -/

theorem le_of_isDigit {b : UInt8} (h : isDigit b = true) : 0x20 ≤ b := by
  simp only [isDigit, Bool.and_eq_true, decide_eq_true_eq] at h
  exact UInt8.le_trans (by decide) h.1

theorem IsNumber.clear {digits : Bytes} (h : IsNumber digits) : ∀ b ∈ digits, 0x20 ≤ b := by
  have hsigns : ∀ sign : Bytes, sign = [] ∨ sign = [0x2B] ∨ sign = [0x2D] → ∀ b ∈ sign, 0x20 ≤ b := by
    rintro sign (rfl | rfl | rfl) <;> decide +kernel
  obtain @⟨sign, whole, fraction, exponent, hs, hw, hf, he⟩ := h
  have hsign : ∀ b ∈ sign, 0x20 ≤ b := hsigns sign (hs.imp_right .inr)
  have hwhole : ∀ b ∈ whole, 0x20 ≤ b := by
    cases hw with
    | zero => decide +kernel
    | digits hd _ hds => exact List.forall_mem_cons.2 ⟨le_of_isDigit hd, fun b hb => le_of_isDigit (hds b hb)⟩
  have hfraction : ∀ b ∈ fraction, 0x20 ≤ b := by
    cases hf with
    | none => simp
    | point h => exact List.forall_mem_cons.2 ⟨by decide, fun b hb => le_of_isDigit (h.2 b hb)⟩
  have hexponent : ∀ b ∈ exponent, 0x20 ≤ b := by
    cases he with
    | none => simp
    | mark he hs h =>
      refine List.forall_mem_cons.2 ⟨?_, List.forall_mem_append.2 ⟨hsigns _ hs, fun b hb => le_of_isDigit (h.2 b hb)⟩⟩
      rcases he with rfl | rfl <;> decide
  simp only [List.forall_mem_append]
  exact ⟨⟨⟨hsign, hwhole⟩, hfraction⟩, hexponent⟩

theorem Hex.le_of_isDigit {n : Nat} {c : Char} (h : Hex.IsDigit n c) : 0x20 ≤ c.toUInt8 := by
  have all : ∀ n < 16, 0x20 ≤ (Nat.digitChar n).toUInt8 ∧ 0x20 ≤ (Nat.digitChar n).toUpper.toUInt8 := by decide
  obtain ⟨hn, rfl | rfl⟩ := h
  · exact (all n hn).1
  · exact (all n hn).2

theorem Piece.Writes.clear {p : Piece} {bs : Bytes} (h : p.Writes bs) : ∀ b ∈ bs, 0x20 ≤ b := by
  cases h with
  | plain hc _ _ => exact List.forall_mem_singleton.2 hc
  | @short letter b h =>
    have all : shortEscapes.all (fun e => decide (0x20 ≤ e.1)) = true := by decide
    have hletter : 0x20 ≤ letter := of_decide_eq_true (List.all_eq_true.1 all _ h)
    exact List.forall_mem_cons.2 ⟨by decide, List.forall_mem_singleton.2 hletter⟩
  | @unit u digits h =>
    have hdigits : ∀ b ∈ digits.map Char.toUInt8, 0x20 ≤ b := by
      refine List.forall_mem_map.2 fun c hc => ?_
      obtain ⟨i, hi, rfl⟩ := List.getElem_of_mem hc
      exact Hex.le_of_isDigit (h.get (h.length_eq ▸ hi) hi)
    exact List.forall_mem_cons.2 ⟨by decide, List.forall_mem_cons.2 ⟨by decide, hdigits⟩⟩

theorem Content.Writes.clear {content : Content} {bs : Bytes} (h : Content.Writes content bs) :
    ∀ b ∈ bs, 0x20 ≤ b := by
  induction h with
  | nil => simp
  | cons hp _ ih => exact List.forall_mem_append.2 ⟨hp.clear, ih⟩

theorem Token.Writes.clear {t : Token} {bs : Bytes} (h : t.Writes bs) : ∀ b ∈ bs, 0x20 ≤ b := by
  cases h with
  | number h => exact h.clear
  | string h =>
    refine List.forall_mem_cons.2 ⟨by decide, List.forall_mem_append.2 ⟨h.clear, ?_⟩⟩
    exact List.forall_mem_singleton.2 (by decide)
  | _ => decide +kernel

/-- **No control character stands in a text without blanks.** -/
theorem Compact.clear {ts : List Token} {bs : Bytes} (h : Compact ts bs) : ∀ b ∈ bs, 0x20 ≤ b := by
  induction h with
  | nil => simp
  | token ht _ ih => exact List.forall_mem_append.2 ⟨ht.clear, ih⟩

/-! ## Strings and numbers -/

def Spelling (c : Char) (bs : Bytes) : Prop :=
  ∃ p : Content, Content.Writes p bs ∧ ∀ cs content, Content.Spells cs content → Content.Spells (c :: cs) (p ++ content)

theorem spelling_short {c letter : Char} (h : (letter.toUInt8, c.toUInt8) ∈ shortEscapes)
    (hc : String.utf8EncodeChar c = [c.toUInt8]) (hl : String.utf8EncodeChar letter = [letter.toUInt8]) :
    Spelling c (['\\', letter].flatMap String.utf8EncodeChar) := by
  have hbytes : ['\\', letter].flatMap String.utf8EncodeChar = [0x5C, letter.toUInt8] ++ [] := by
    rw [List.flatMap_cons, List.flatMap_singleton, hl]
    rfl
  refine ⟨[.octet c.toUInt8], hbytes ▸ .cons (.short h) .nil, fun cs content hs => ?_⟩
  have hplain := Content.Spells.plain (c := c) hs
  rwa [hc] at hplain

theorem spelling_unit {c : Char} (h : c.toNat < 0x20) :
    Spelling c
      (['\\', 'u', '0', '0', Nat.digitChar (c.toNat / 16), Nat.digitChar (c.toNat % 16)].flatMap
        String.utf8EncodeChar) := by
  have all : ∀ u < 0x20,
      List.Forall₂ Hex.IsDigit [u / 0x1000, u / 0x100 % 16, u / 0x10 % 16, u % 16]
          ['0', '0', Nat.digitChar (u / 16), Nat.digitChar (u % 16)] ∧
        ['\\', 'u', '0', '0', Nat.digitChar (u / 16), Nat.digitChar (u % 16)].flatMap String.utf8EncodeChar =
          0x5C :: 0x75 :: ['0', '0', Nat.digitChar (u / 16), Nat.digitChar (u % 16)].map Char.toUInt8 := by
    decide
  obtain ⟨hdigits, hbytes⟩ := all c.toNat h
  have hunit : utf16 c = [c.toNat] := if_pos (by omega)
  refine ⟨[.unit c.toNat], ?_, fun cs content hs => ?_⟩
  · rw [hbytes, ← List.append_nil (0x5C :: _)]
    exact .cons (.unit _ hdigits) .nil
  · have hescaped := Content.Spells.escaped (c := c) hs
    rwa [hunit] at hescaped

theorem spelling_plain {c : Char} (hc : 0x20 ≤ c.toNat) (hq : c ≠ '"') (hb : c ≠ '\\') :
    Spelling c ([c].flatMap String.utf8EncodeChar) := by
  refine ⟨(String.utf8EncodeChar c).map .octet, ?_, fun cs content hs => .plain hs⟩
  rw [List.flatMap_singleton]
  refine Content.writes_octets _ fun b hmem => ?_
  have hqn : c.toNat ≠ 0x22 := fun h => hq (Char.toNat_inj.1 h)
  have hbn : c.toNat ≠ 0x5C := fun h => hb (Char.toNat_inj.1 h)
  have hoctet : 0x20 ≤ b.toNat ∧ b.toNat ≠ 0x22 ∧ b.toNat ≠ 0x5C := by
    rcases octet_of_utf8EncodeChar hmem with h | h <;> omega
  refine ⟨UInt8.le_iff_toNat_le.2 hoctet.1, ?_, ?_⟩
  · rintro rfl
    exact hoctet.2.1 rfl
  · rintro rfl
    exact hoctet.2.2 rfl

theorem spelling_escaped (c : Char) : Spelling c ((escaped c).flatMap String.utf8EncodeChar) := by
  unfold escaped
  -- the seven escapes of one letter
  iterate 7
    split
    · subst c
      exact spelling_short (by decide) (by decide) (by decide)
  rename_i hq hb _ _ _ _ _
  split
  · rename_i hc
    exact spelling_unit hc
  · rename_i hc
    exact spelling_plain (Nat.le_of_not_lt hc) hq hb

theorem Content.Writes.append {content content' : Content} {bs bs' : Bytes} (h : Content.Writes content bs)
    (h' : Content.Writes content' bs') : Content.Writes (content ++ content') (bs ++ bs') := by
  induction h with
  | nil => exact h'
  | cons hp _ ih =>
    rw [List.cons_append, List.append_assoc]
    exact .cons hp ih

/-- **A quoted text is a string that spells it.** -/
theorem exists_writes_quoted (s : String) :
    ∃ content, Content.Spells s.toList content ∧ (Token.string content).Writes (Bytes.ofText (quoted s)) := by
  have hbody : ∀ cs : List Char, ∃ content, Content.Spells cs content ∧
      Content.Writes content ((cs.flatMap escaped).flatMap String.utf8EncodeChar) := by
    intro cs
    induction cs with
    | nil => exact ⟨[], .nil, .nil⟩
    | cons c cs ih =>
      obtain ⟨content, hspells, hwrites⟩ := ih
      obtain ⟨p, hp, hc⟩ := spelling_escaped c
      refine ⟨p ++ content, hc cs content hspells, ?_⟩
      rw [List.flatMap_cons, List.flatMap_append]
      exact hp.append hwrites
  obtain ⟨content, hspells, hwrites⟩ := hbody s.toList
  have hbytes : Bytes.ofText (quoted s) =
      0x22 :: ((s.toList.flatMap escaped).flatMap String.utf8EncodeChar ++ [0x22]) := by
    unfold quoted
    rw [Bytes.ofText_append, Bytes.ofText_append, Bytes.ofText_ofList (s.toList.flatMap escaped)]
    rfl
  exact ⟨content, hspells, hbytes ▸ .string hwrites⟩

theorem toDigits_eq_cons {n : Nat} (h : n ≠ 0) :
    ∃ k cs, k ≠ 0 ∧ k < 10 ∧ Nat.toDigits 10 n = Nat.digitChar k :: cs := by
  induction n using Nat.strongRecOn with
  | ind n ih =>
    by_cases hn : n < 10
    · exact ⟨n, [], h, hn, Nat.toDigits_of_lt_base hn⟩
    · obtain ⟨k, cs, hk, hlt, hdigits⟩ := ih (n / 10) (by omega) (by omega)
      refine ⟨k, cs ++ [Nat.digitChar (n % 10)], hk, hlt, ?_⟩
      rw [Nat.toDigits_of_base_le (by decide) (by omega), hdigits, List.cons_append]

theorem isNumber_text (n : Nat) : IsNumber (Bytes.ofText (Decimal.text n)) := by
  have hwhole : IsWhole (Bytes.ofText (Decimal.text n)) := by
    have hdigits : ∀ c ∈ Nat.toDigits 10 n, c.isDigit = true := fun c hc =>
      Nat.isDigit_of_mem_toDigits (by decide) (by decide) hc
    obtain ⟨hoctets, hall, -⟩ := digits_of_isDigit hdigits
    rw [Decimal.text, hoctets]
    by_cases hn : n = 0
    · subst hn
      exact .zero
    · have all : ∀ k < 10, k ≠ 0 → (Nat.digitChar k).toUInt8 ≠ 0x30 := by decide
      obtain ⟨k, cs, hk, hlt, hcons⟩ := toDigits_eq_cons hn
      rw [hcons, List.map_cons, List.all_cons, Bool.and_eq_true, List.all_eq_true] at hall
      rw [hcons, List.map_cons]
      exact .digits hall.1 (all k hlt hk) hall.2
  simpa using IsNumber.mk (.inl rfl) hwhole .none .none

/-! ## Printed documents -/

/-- The text writes the document without blanks. -/
def Printed (s : String) (doc : Document) : Prop := ∃ v, doc.Means v ∧ Compact v.tokens (Bytes.ofText s)

theorem printed_text (s : String) : Printed (quoted s) (.text s) := by
  obtain ⟨content, hspells, hwrites⟩ := exists_writes_quoted s
  exact ⟨.string content, .text hspells, .single hwrites⟩

theorem printed_number (n : Nat) : Printed (Decimal.text n) (.number n) :=
  ⟨_, .number n, .single (.number (isNumber_text n))⟩

def PrintedMember (text : String) (member : String × Document) : Prop :=
  ∃ s, text = written member.1 s ∧ Printed s member.2

theorem printedMember {s : String} {doc : Document} (name : String) (h : Printed s doc) :
    PrintedMember (written name s) (name, doc) := ⟨s, rfl, h⟩

theorem PrintedMember.compact {text name : String} {doc : Document} (h : PrintedMember text (name, doc)) :
    ∃ key v, Content.Spells name.toList key ∧ doc.Means v ∧
      Compact (.string key :: .colon :: v.tokens) (Bytes.ofText text) := by
  obtain ⟨s, rfl, v, hmeans, hcompact⟩ := h
  obtain ⟨key, hspells, hwrites⟩ := exists_writes_quoted name
  refine ⟨key, v, hspells, hmeans, ?_⟩
  simp only [written, Bytes.ofText_append, List.append_assoc]
  exact .token hwrites (.token .colon hcompact)

theorem ofText_intercalate (text : String) (texts : List String) :
    Bytes.ofText (",".intercalate (text :: texts)) =
      Bytes.ofText text ++ texts.flatMap fun t => Bytes.ofText "," ++ Bytes.ofText t := by
  induction texts generalizing text with
  | nil => simp
  | cons t texts ih =>
    rw [String.intercalate_cons_cons, Bytes.ofText_append, Bytes.ofText_append, ih, List.flatMap_cons]
    simp only [List.append_assoc]

theorem compact_moreMembers {texts : List String} {members : List (String × Document)}
    (h : List.Forall₂ PrintedMember texts members) :
    ∃ ms, MembersMean members ms ∧
      Compact (moreMembers ms)
        ((texts.flatMap fun t => Bytes.ofText "," ++ Bytes.ofText t) ++ Bytes.ofText "\x7d") := by
  induction h with
  | nil => exact ⟨[], .nil, .single .closeObject⟩
  | @cons text member texts members hmember _ ih =>
    obtain ⟨key, v, hspells, hmeans, hcompact⟩ := hmember.compact
    obtain ⟨ms, hms, hmore⟩ := ih
    refine ⟨(key, v) :: ms, .cons hspells hmeans hms, ?_⟩
    simp only [List.flatMap_cons, List.append_assoc]
    exact .token .comma (hcompact.append hmore)

/-- **Members in braces are an object.** -/
theorem printed_braced {texts : List String} {members : List (String × Document)}
    (h : List.Forall₂ PrintedMember texts members) : Printed (braced texts) (.object members) := by
  cases h with
  | nil =>
    exact ⟨.object [], .object .nil, .token .openObject (.single .closeObject)⟩
  | @cons text member texts members hmember hmembers =>
    obtain ⟨key, v, hspells, hmeans, hcompact⟩ := hmember.compact
    obtain ⟨ms, hms, hmore⟩ := compact_moreMembers hmembers
    refine ⟨.object ((key, v) :: ms), .object (.cons hspells hmeans hms), ?_⟩
    unfold braced
    rw [Bytes.ofText_append, Bytes.ofText_append, ofText_intercalate]
    simp only [List.append_assoc]
    exact .token .openObject (hcompact.append hmore)

theorem Printed.writes {s : String} {doc : Document} (h : Printed s doc) : doc.Writes (Bytes.ofText s) := by
  obtain ⟨v, hmeans, hcompact⟩ := h
  exact ⟨v, hmeans, hcompact.written⟩

/-- **A printed text says its document and no other**, and no control character stands in it. -/
theorem Printed.decodes {s : String} {doc : Document} (h : Printed s doc) :
    (∀ b ∈ Bytes.ofText s, 0x20 ≤ b) ∧
      ∃ v, Value.parse? (Bytes.ofText s) = some v ∧ ∀ other, other.Means v ↔ other = doc := by
  obtain ⟨v, hmeans, hcompact⟩ := h
  refine ⟨hcompact.clear, v, Value.parse?_of_written hcompact.written, fun other => ⟨fun h => h.unique hmeans, ?_⟩⟩
  rintro rfl
  exact hmeans

end Json
end Firmware
