import Firmware.Json.Reading
import Firmware.Text.Hex
import Mathlib.Data.List.Chain
import Mathlib.Data.List.Forall2
/-!
# Lexing — every written form of a value is read

A token has many written forms: a digit of an escape has two cases, an octet of a string may be escaped or not, blanks
may stand around every token.  `Written` says which octets write a list of tokens, by the grammar of JSON and without
the lexer.  `Value.parse?_of_written` is the main statement: whatever octets write the tokens of a value, they are read
as that value.
-/
namespace Firmware.Json

/-! ## The grammar of numbers -/

def IsDigits (ds : Bytes) : Prop := ds ≠ [] ∧ ∀ d ∈ ds, isDigit d = true

inductive IsWhole : Bytes → Prop where
  | zero : IsWhole [0x30]
  | digits {d : UInt8} {ds : Bytes} (hd : isDigit d = true) (hne : d ≠ 0x30) (hds : ∀ d ∈ ds, isDigit d = true) :
    IsWhole (d :: ds)

inductive IsFraction : Bytes → Prop where
  | none : IsFraction []
  | point {ds : Bytes} (h : IsDigits ds) : IsFraction (0x2E :: ds)

inductive IsExponent : Bytes → Prop where
  | none : IsExponent []
  | mark {e : UInt8} {sign ds : Bytes} (he : e = 0x65 ∨ e = 0x45) (hs : sign = [] ∨ sign = [0x2B] ∨ sign = [0x2D])
    (h : IsDigits ds) : IsExponent (e :: (sign ++ ds))

inductive IsNumber : Bytes → Prop where
  | mk {sign whole fraction exponent : Bytes} (hs : sign = [] ∨ sign = [0x2D]) (hw : IsWhole whole)
    (hf : IsFraction fraction) (he : IsExponent exponent) : IsNumber (sign ++ whole ++ fraction ++ exponent)

/-! ## Written forms -/

def shortEscapes : List (UInt8 × UInt8) :=
  [(0x22, 0x22), (0x5C, 0x5C), (0x2F, 0x2F), (0x62, 0x08), (0x66, 0x0C), (0x6E, 0x0A), (0x72, 0x0D), (0x74, 0x09)]

inductive Piece.Writes : Piece → Bytes → Prop where
  | plain {b : UInt8} (hc : 0x20 ≤ b) (hq : b ≠ 0x22) (hb : b ≠ 0x5C) : Writes (.octet b) [b]
  | short {letter b : UInt8} (h : (letter, b) ∈ shortEscapes) : Writes (.octet b) [0x5C, letter]
  | unit {u : Nat} (digits : List Char)
    (h : List.Forall₂ Hex.IsDigit [u / 0x1000, u / 0x100 % 16, u / 0x10 % 16, u % 16] digits) :
    Writes (.unit u) (0x5C :: 0x75 :: digits.map Char.toUInt8)

inductive Content.Writes : Content → Bytes → Prop where
  | nil : Writes [] []
  | cons {p : Piece} {content : Content} {bs rest : Bytes} (hp : p.Writes bs) (hr : Writes content rest) :
    Writes (p :: content) (bs ++ rest)

inductive Token.Writes : Token → Bytes → Prop where
  | openObject : Writes .openObject (Bytes.ofText "\x7b")
  | closeObject : Writes .closeObject (Bytes.ofText "\x7d")
  | openArray : Writes .openArray (Bytes.ofText "[")
  | closeArray : Writes .closeArray (Bytes.ofText "]")
  | colon : Writes .colon (Bytes.ofText ":")
  | comma : Writes .comma (Bytes.ofText ",")
  | null : Writes .null (Bytes.ofText "null")
  | true_ : Writes (.boolean true) (Bytes.ofText "true")
  | false_ : Writes (.boolean false) (Bytes.ofText "false")
  | number {digits : Bytes} (h : IsNumber digits) : Writes (.number digits) digits
  | string {content : Content} {body : Bytes} (h : Content.Writes content body) :
    Writes (.string content) (0x22 :: (body ++ [0x22]))

/-- The octets write the tokens one after the other, with blanks around them or none. -/
inductive Written : List Token → Bytes → Prop where
  | nil {blanks : Bytes} (hb : ∀ b ∈ blanks, isSpace b = true) : Written [] blanks
  | cons {t : Token} {ts : List Token} {blanks bs rest : Bytes} (hb : ∀ b ∈ blanks, isSpace b = true)
    (ht : t.Writes bs) (hr : Written ts rest) : Written (t :: ts) (blanks ++ (bs ++ rest))

theorem Content.writes_octets (bs : Bytes) (h : ∀ b ∈ bs, 0x20 ≤ b ∧ b ≠ 0x22 ∧ b ≠ 0x5C) :
    Writes (bs.map .octet) bs := by
  induction bs with
  | nil => exact .nil
  | cons b bs ih =>
    obtain ⟨⟨hc, hq, hb⟩, hbs⟩ := List.forall_mem_cons.1 h
    exact .cons (.plain hc hq hb) (ih hbs)

theorem Token.writes_octets (bs : Bytes) (h : ∀ b ∈ bs, 0x20 ≤ b ∧ b ≠ 0x22 ∧ b ≠ 0x5C) :
    Writes (.string (bs.map .octet)) (0x22 :: (bs ++ [0x22])) :=
  .string (Content.writes_octets bs h)

theorem Written.token {t : Token} {ts : List Token} {bs rest : Bytes} (ht : t.Writes bs) (hr : Written ts rest) :
    Written (t :: ts) (bs ++ rest) :=
  Written.cons (fun _ hb => nomatch hb : ∀ b ∈ ([] : Bytes), isSpace b = true) ht hr

theorem Written.blank {b : UInt8} {ts : List Token} {rest : Bytes} (hb : isSpace b = true) (h : Written ts rest) :
    Written ts (b :: rest) := by
  cases h with
  | nil hblanks => exact .nil (List.forall_mem_cons.2 ⟨hb, hblanks⟩)
  | @cons t ts blanks bs rest hblanks ht hr =>
    exact Written.cons (List.forall_mem_cons.2 ⟨hb, hblanks⟩) ht hr

/-! ## Numbers that run into each other

Two numbers in a row would be read as one.  In the tokens of a value a bracket or a comma stands between them. -/

def Token.isNumber : Token → Bool
  | .number _ => true
  | _ => false

def Apart (ts : List Token) : Prop := ts.IsChain fun t u => t.isNumber = true → u.isNumber = false

theorem Apart.cons {t : Token} {ts : List Token} (ht : t.isNumber = false) (h : Apart ts) : Apart (t :: ts) := by
  refine List.IsChain.cons h fun u _ hn => ?_
  rw [ht] at hn
  cases hn

theorem Apart.cons_of_head {t : Token} {ts : List Token} (h : Apart ts) (hh : ∀ u ∈ ts.head?, u.isNumber = false) :
    Apart (t :: ts) :=
  List.IsChain.cons h fun u hu _ => hh u hu

theorem head?_moreItems (vs : List Value) (ts : List Token) :
    ∀ u ∈ (moreItems vs ++ ts).head?, u.isNumber = false := by
  cases vs <;> simp [moreItems, Token.isNumber]

theorem head?_moreMembers (ms : List Member) (ts : List Token) :
    ∀ u ∈ (moreMembers ms ++ ts).head?, u.isNumber = false := by
  cases ms <;> simp [moreMembers, Token.isNumber]

mutual

theorem Apart.tokens_append (v : Value) {ts : List Token} (h : Apart ts)
    (hh : ∀ u ∈ ts.head?, u.isNumber = false) : Apart (v.tokens ++ ts) := by
  match v with
  | .null | .boolean _ | .number _ | .string _ => simpa [Value.tokens] using h.cons_of_head hh
  | .array [] | .object [] => simpa [Value.tokens] using (h.cons_of_head hh).cons rfl
  | .array (v :: vs) =>
    have hvs := Apart.moreItems_append vs h
    simpa [Value.tokens] using (Apart.tokens_append v hvs (head?_moreItems vs ts)).cons rfl
  | .object ((k, v) :: ms) =>
    have hms := Apart.moreMembers_append ms h
    simpa [Value.tokens] using (((Apart.tokens_append v hms (head?_moreMembers ms ts)).cons rfl).cons rfl).cons rfl

theorem Apart.moreItems_append (vs : List Value) {ts : List Token} (h : Apart ts) : Apart (moreItems vs ++ ts) := by
  match vs with
  | [] => simpa [moreItems] using h.cons rfl
  | v :: vs =>
    have hvs := Apart.moreItems_append vs h
    simpa [moreItems] using (Apart.tokens_append v hvs (head?_moreItems vs ts)).cons rfl

theorem Apart.moreMembers_append (ms : List (Content × Value)) {ts : List Token} (h : Apart ts) :
    Apart (moreMembers ms ++ ts) := by
  match ms with
  | [] => simpa [moreMembers] using h.cons rfl
  | (k, v) :: ms =>
    have hms := Apart.moreMembers_append ms h
    simpa [moreMembers] using (((Apart.tokens_append v hms (head?_moreMembers ms ts)).cons rfl).cons rfl).cons rfl

end

theorem Value.tokens_apart (v : Value) : Apart v.tokens := by
  have h : Apart (v.tokens ++ []) := Apart.tokens_append v List.IsChain.nil (by simp)
  simpa using h

/-! ## The lexer inside a number -/

theorem mem_of_isDigit {d : UInt8} (h : isDigit d = true) :
    d ∈ [0x30, 0x31, 0x32, 0x33, 0x34, 0x35, 0x36, 0x37, 0x38, 0x39] := by
  have hd : 0x30 ≤ d.toNat ∧ d.toNat ≤ 0x39 := by
    simpa [isDigit, UInt8.le_iff_toNat_le] using h
  simp only [List.mem_cons, List.not_mem_nil, or_false, ← UInt8.toNat_inj]
  simp
  omega

theorem foldlM_digits {part : NumberPart} (hp : ∀ d, isDigit d = true → part.next? d = some part) {ds : Bytes}
    (h : ∀ d ∈ ds, isDigit d = true) : ds.foldlM NumberPart.next? part = some part := by
  induction ds with
  | nil => rfl
  | cons d ds ih =>
    obtain ⟨hd, hds⟩ := List.forall_mem_cons.1 h
    simp [List.foldlM_cons, hp d hd, ih hds]

theorem IsDigits.foldlM {ds : Bytes} (h : IsDigits ds) {part part' : NumberPart}
    (hfirst : ∀ d, isDigit d = true → part.next? d = some part')
    (hrest : ∀ d, isDigit d = true → part'.next? d = some part') :
    ds.foldlM NumberPart.next? part = some part' := by
  obtain ⟨hne, hds⟩ := h
  obtain ⟨d, ds, rfl⟩ := List.exists_cons_of_ne_nil hne
  obtain ⟨hd, hds⟩ := List.forall_mem_cons.1 hds
  simp [List.foldlM_cons, hfirst d hd, foldlM_digits hrest hds]

theorem IsWhole.foldlM {whole : Bytes} (h : IsWhole whole) :
    ∃ part, (part = .zero ∨ part = .integer) ∧ whole.foldlM NumberPart.next? .minus = some part := by
  cases h with
  | zero => exact ⟨.zero, .inl rfl, rfl⟩
  | @digits d ds hd hne hds =>
    have hfirst : NumberPart.next? .minus d = some .integer := by simp [NumberPart.next?, hd, hne]
    have hrest : ds.foldlM NumberPart.next? .integer = some .integer :=
      foldlM_digits (by simp +contextual [NumberPart.next?]) hds
    exact ⟨.integer, .inr rfl, by simp [List.foldlM_cons, hfirst, hrest]⟩

theorem IsWhole.eq_cons {whole : Bytes} (h : IsWhole whole) : ∃ d ds, whole = d :: ds ∧ isDigit d = true := by
  cases h with
  | zero => exact ⟨_, _, rfl, rfl⟩
  | digits hd => exact ⟨_, _, rfl, hd⟩

theorem IsFraction.foldlM {fraction : Bytes} (h : IsFraction fraction) {part : NumberPart}
    (hp : part = .zero ∨ part = .integer) :
    ∃ part', (part' = .zero ∨ part' = .integer ∨ part' = .fraction) ∧
      fraction.foldlM NumberPart.next? part = some part' := by
  cases h with
  | none => exact ⟨part, by tauto, rfl⟩
  | @point ds h =>
    have hpoint : part.next? 0x2E = some .point := by rcases hp with rfl | rfl <;> rfl
    have hds : ds.foldlM NumberPart.next? .point = some .fraction :=
      h.foldlM (by simp +contextual [NumberPart.next?]) (by simp +contextual [NumberPart.next?])
    exact ⟨.fraction, by simp, by simp [List.foldlM_cons, hpoint, hds]⟩

theorem IsExponent.foldlM {exponent : Bytes} (h : IsExponent exponent) {part : NumberPart}
    (hp : part = .zero ∨ part = .integer ∨ part = .fraction) :
    ∃ part', part'.isComplete = true ∧ exponent.foldlM NumberPart.next? part = some part' := by
  cases h with
  | none => exact ⟨part, by rcases hp with rfl | rfl | rfl <;> rfl, rfl⟩
  | @mark e sign ds he hs h =>
    have hmark : part.next? e = some .exponent := by
      rcases hp with rfl | rfl | rfl <;> rcases he with rfl | rfl <;> rfl
    have hgo : ∀ d, isDigit d = true → NumberPart.next? .exponentDigits d = some .exponentDigits := by
      simp +contextual [NumberPart.next?]
    refine ⟨.exponentDigits, rfl, ?_⟩
    rcases hs with rfl | rfl | rfl
    · have hfirst : ∀ d, isDigit d = true → NumberPart.next? .exponent d = some .exponentDigits := by
        intro d hd
        have hm := mem_of_isDigit hd
        simp only [List.mem_cons, List.not_mem_nil, or_false] at hm
        rcases hm with rfl | rfl | rfl | rfl | rfl | rfl | rfl | rfl | rfl | rfl <;> rfl
      simp [List.foldlM_cons, hmark, h.foldlM hfirst hgo]
    all_goals
      have hsigned : ds.foldlM NumberPart.next? .exponentSign = some .exponentDigits :=
        h.foldlM (by simp +contextual [NumberPart.next?]) hgo
      rw [List.foldlM_cons, hmark]
      exact hsigned

namespace Lexer

variable {tokens : List Token}

theorem foldlM_number {bs : Bytes} {part part' : NumberPart} (h : bs.foldlM NumberPart.next? part = some part')
    (digits : Bytes) :
    bs.foldlM feed ⟨.number part digits, tokens⟩ = some ⟨.number part' (bs.reverse ++ digits), tokens⟩ := by
  induction bs generalizing part digits with
  | nil => cases h; rfl
  | cons b bs ih =>
    rw [List.foldlM_cons] at h
    obtain ⟨part₁, h₁, h₂⟩ := Option.bind_eq_some_iff.1 h
    simp [List.foldlM_cons, feed, h₁, ih h₂]

theorem start_of_isDigit {d : UInt8} (h : isDigit d = true) :
    start tokens d = (NumberPart.next? .minus d).map fun part => ⟨.number part [d], tokens⟩ := by
  have hm := mem_of_isDigit h
  simp only [List.mem_cons, List.not_mem_nil, or_false] at hm
  rcases hm with rfl | rfl | rfl | rfl | rfl | rfl | rfl | rfl | rfl | rfl <;> rfl

theorem foldlM_whole (tokens : List Token) {sign whole : Bytes} (hs : sign = [] ∨ sign = [0x2D]) (h : IsWhole whole) :
    ∃ part, (part = .zero ∨ part = .integer) ∧
      (sign ++ whole).foldlM feed ⟨.between, tokens⟩ = some ⟨.number part (sign ++ whole).reverse, tokens⟩ := by
  obtain ⟨part, hpart, hwhole⟩ := h.foldlM
  refine ⟨part, hpart, ?_⟩
  rcases hs with rfl | rfl
  · obtain ⟨d, ds, rfl, hd⟩ := h.eq_cons
    rw [List.foldlM_cons] at hwhole
    obtain ⟨part₁, hfirst, hrest⟩ := Option.bind_eq_some_iff.1 hwhole
    have hstart : feed ⟨.between, tokens⟩ d = some ⟨.number part₁ [d], tokens⟩ := by
      simp [feed, start_of_isDigit hd, hfirst]
    simp [List.foldlM_cons, hstart, foldlM_number hrest]
  · have hminus : feed ⟨.between, tokens⟩ 0x2D = some ⟨.number .minus [0x2D], tokens⟩ := rfl
    simp [List.foldlM_cons, hminus, foldlM_number hwhole]

/-! ## The lexer between tokens -/

/-- The lexer has taken whole tokens; the last may be a number that could still go on. -/
inductive Rests : List Token → Lexer → Prop where
  | between (tokens : List Token) : Rests tokens ⟨.between, tokens⟩
  | number {part : NumberPart} (hp : part.isComplete = true) (digits : Bytes) (tokens : List Token) :
    Rests (.number digits.reverse :: tokens) ⟨.number part digits, tokens⟩

theorem foldlM_isNumber {digits : Bytes} (h : IsNumber digits) :
    ∃ l, digits.foldlM feed ⟨.between, tokens⟩ = some l ∧ l.Rests (.number digits :: tokens) := by
  obtain ⟨hs, hw, hf, he⟩ := h
  rename_i sign whole fraction exponent
  obtain ⟨part, hp, hwhole⟩ := foldlM_whole tokens hs hw
  obtain ⟨part₁, hp₁, hfraction⟩ := hf.foldlM hp
  obtain ⟨part₂, hp₂, hexponent⟩ := he.foldlM hp₁
  have hall : (sign ++ whole ++ fraction ++ exponent).foldlM feed ⟨.between, tokens⟩ =
      some ⟨.number part₂ (sign ++ whole ++ fraction ++ exponent).reverse, tokens⟩ := by
    rw [List.foldlM_append, List.foldlM_append, hwhole]
    simp [foldlM_number hfraction, foldlM_number hexponent]
  have hrests := Rests.number hp₂ (sign ++ whole ++ fraction ++ exponent).reverse tokens
  exact ⟨_, hall, by simpa using hrests⟩

def continuesNumber (b : UInt8) : Bool := isDigit b || b == 0x2E || b == 0x65 || b == 0x45

theorem next?_of_complete {part : NumberPart} {b : UInt8} (hp : part.isComplete = true)
    (hb : continuesNumber b = false) : part.next? b = none := by
  simp only [continuesNumber, Bool.or_eq_false_iff, beq_eq_false_iff_ne] at hb
  obtain ⟨⟨⟨hd, hpoint⟩, he⟩, hE⟩ := hb
  cases part <;> simp_all [NumberPart.next?, NumberPart.isComplete]

theorem Rests.feed_eq {l : Lexer} (h : l.Rests tokens) {b : UInt8} (hb : continuesNumber b = false) :
    l.feed b = start tokens b := by
  cases h with
  | between => rfl
  | number hp digits tokens => simp [feed, next?_of_complete hp hb, hp]

theorem Rests.foldlM_eq {l : Lexer} (h : l.Rests tokens) {b : UInt8} (hb : continuesNumber b = false) (bs : Bytes) :
    (b :: bs).foldlM feed l = (b :: bs).foldlM feed ⟨.between, tokens⟩ := by
  rw [List.foldlM_cons, List.foldlM_cons, h.feed_eq hb]
  rfl

theorem Rests.finish_eq {l : Lexer} (h : l.Rests tokens) : l.finish = some tokens.reverse := by
  cases h with
  | between => rfl
  | number hp digits tokens => simp [finish, hp]

theorem Rests.eq_between {l : Lexer} (h : l.Rests tokens) (hn : ∀ t ∈ tokens.head?, t.isNumber = false) :
    l = ⟨.between, tokens⟩ := by
  cases h with
  | between => rfl
  | number hp digits tokens => cases hn _ rfl

theorem Rests.foldlM_blanks {l : Lexer} (h : l.Rests tokens) {blanks : Bytes}
    (hb : ∀ b ∈ blanks, isSpace b = true) : ∃ l', blanks.foldlM feed l = some l' ∧ l'.Rests tokens := by
  induction blanks generalizing l with
  | nil => exact ⟨l, rfl, h⟩
  | cons b blanks ih =>
    obtain ⟨hspace, hblanks⟩ := List.forall_mem_cons.1 hb
    have hcont : continuesNumber b = false := by
      simp only [isSpace, Bool.or_eq_true, beq_iff_eq] at hspace
      rcases hspace with ((rfl | rfl) | rfl) | rfl <;> rfl
    have hstart : start tokens b = some ⟨.between, tokens⟩ := by simp [start, hspace]
    obtain ⟨l', hl', hrests⟩ := ih (.between tokens) hblanks
    exact ⟨l', by simp [List.foldlM_cons, h.feed_eq hcont, hstart, hl'], hrests⟩

/-! ## Strings -/

theorem hexDigit?_of_isDigit {n : Nat} {c : Char} (h : Hex.IsDigit n c) : hexDigit? c.toUInt8 = some n := by
  have all : ∀ n < 16, hexDigit? (Nat.digitChar n).toUInt8 = some n ∧
      hexDigit? (Nat.digitChar n).toUpper.toUInt8 = some n := by decide
  obtain ⟨hn, rfl | rfl⟩ := h
  · exact (all n hn).1
  · exact (all n hn).2

theorem foldlM_piece {p : Piece} {bs : Bytes} (h : p.Writes bs) (done : Content) :
    bs.foldlM feed ⟨.string done, tokens⟩ = some ⟨.string (p :: done), tokens⟩ := by
  cases h with
  | plain hc hq hb => simp [feed, hq, hb, UInt8.not_lt.2 hc]
  | short h =>
    simp only [shortEscapes, List.mem_cons, List.not_mem_nil, or_false, Prod.mk.injEq] at h
    rcases h with ⟨rfl, rfl⟩ | ⟨rfl, rfl⟩ | ⟨rfl, rfl⟩ | ⟨rfl, rfl⟩ | ⟨rfl, rfl⟩ | ⟨rfl, rfl⟩ | ⟨rfl, rfl⟩ |
      ⟨rfl, rfl⟩ <;> rfl
  | @unit u digits h =>
    simp only [List.forall₂_cons_left_iff, List.forall₂_nil_left_iff] at h
    obtain ⟨c₁, _, h₁, ⟨c₂, _, h₂, ⟨c₃, _, h₃, ⟨c₄, _, h₄, rfl, rfl⟩, rfl⟩, rfl⟩, rfl⟩ := h
    have hbegin : feed ⟨.string done, tokens⟩ 0x5C = some ⟨.escape done, tokens⟩ := rfl
    have hvalue : 16 * (16 * (16 * (u / 0x1000) + u / 0x100 % 16) + u / 0x10 % 16) + u % 16 = u := by omega
    rw [List.foldlM_cons, hbegin]
    simp [feed, hexDigit?_of_isDigit h₁, hexDigit?_of_isDigit h₂, hexDigit?_of_isDigit h₃, hexDigit?_of_isDigit h₄,
      hvalue]

theorem foldlM_content {content : Content} {body : Bytes} (h : Content.Writes content body) (done : Content) :
    body.foldlM feed ⟨.string done, tokens⟩ = some ⟨.string (content.reverse ++ done), tokens⟩ := by
  induction h generalizing done with
  | nil => rfl
  | cons hp hr ih => simp [List.foldlM_append, foldlM_piece hp, ih]

/-! ## Written forms are read -/

theorem foldlM_token {t : Token} {bs : Bytes} (h : t.Writes bs) :
    ∃ l, bs.foldlM feed ⟨.between, tokens⟩ = some l ∧ l.Rests (t :: tokens) := by
  cases h with
  | number h => exact foldlM_isNumber h
  | @string content body h =>
    have hopen : feed ⟨.between, tokens⟩ 0x22 = some ⟨.string [], tokens⟩ := rfl
    have hclose : feed ⟨.string content.reverse, tokens⟩ 0x22 = some ⟨.between, .string content :: tokens⟩ := by
      simp [feed]
    refine ⟨_, ?_, .between _⟩
    simp [List.foldlM_cons, List.foldlM_append, hopen, foldlM_content h, hclose]
  | _ => exact ⟨_, rfl, .between _⟩

end Lexer

theorem Token.Writes.eq_cons {t : Token} {bs : Bytes} (h : t.Writes bs) (hn : t.isNumber = false) :
    ∃ b rest, bs = b :: rest ∧ Lexer.continuesNumber b = false := by
  cases h with
  | number h => cases hn
  | string h => exact ⟨_, _, rfl, rfl⟩
  | _ => exact ⟨_, _, rfl, rfl⟩

theorem Lexer.Rests.foldlM_token {tokens : List Token} {l : Lexer} (h : l.Rests tokens) {t : Token} {bs : Bytes}
    (ht : t.Writes bs) (hn : ∀ u ∈ tokens.head?, u.isNumber = true → t.isNumber = false) :
    ∃ l', bs.foldlM Lexer.feed l = some l' ∧ l'.Rests (t :: tokens) := by
  obtain ⟨l', hl', hrests⟩ : ∃ l', bs.foldlM Lexer.feed ⟨.between, tokens⟩ = some l' ∧ l'.Rests (t :: tokens) :=
    Lexer.foldlM_token ht
  -- a number could go on with a number before it, every other token ends that number
  cases htn : t.isNumber with
  | true =>
    have hl : l = ⟨.between, tokens⟩ := h.eq_between fun u hu => by
      have := hn u hu
      simp_all
    exact ⟨l', hl ▸ hl', hrests⟩
  | false =>
    obtain ⟨b, rest, rfl, hb⟩ := ht.eq_cons htn
    exact ⟨l', (h.foldlM_eq hb rest).trans hl', hrests⟩

theorem Lexer.Rests.foldlM_written {ts : List Token} {payload : Bytes} (h : Written ts payload) :
    ∀ {tokens : List Token} {l : Lexer}, l.Rests tokens → Apart ts →
      (∀ u ∈ tokens.head?, ∀ t ∈ ts.head?, u.isNumber = true → t.isNumber = false) →
      ∃ l', payload.foldlM Lexer.feed l = some l' ∧ l'.Rests (ts.reverse ++ tokens) := by
  induction h with
  | nil hb =>
    intro tokens l hl _ _
    simpa using hl.foldlM_blanks hb
  | @cons t ts blanks bs rest hb ht hr ih =>
    intro tokens l hl ha hn
    obtain ⟨l₁, hblanks, hl₁⟩ := hl.foldlM_blanks hb
    obtain ⟨l₂, htoken, hl₂⟩ := hl₁.foldlM_token ht fun u hu => hn u hu t rfl
    have hnext : ∀ u ∈ (t :: tokens).head?, ∀ t' ∈ ts.head?, u.isNumber = true → t'.isNumber = false := by
      rintro u ⟨⟩ t' ht' hu
      exact ha.rel_head? ht' hu
    obtain ⟨l₃, hrest, hl₃⟩ := ih hl₂ ha.tail hnext
    exact ⟨l₃, by simp [List.foldlM_append, hblanks, htoken, hrest], by simpa using hl₃⟩

theorem tokens?_of_written {ts : List Token} {payload : Bytes} (h : Written ts payload) (ha : Apart ts) :
    tokens? payload = some ts := by
  obtain ⟨l, hl, hrests⟩ := Lexer.Rests.foldlM_written h (.between []) ha (by simp)
  simp [tokens?, hl, hrests.finish_eq]

/-- **Whatever octets write the tokens of a value are read as that value.** -/
theorem Value.parse?_of_written {v : Value} {payload : Bytes} (h : Written v.tokens payload) :
    Value.parse? payload = some v := by
  simp [Value.parse?, tokens?_of_written h v.tokens_apart, Value.ofTokens?_eq_some]

end Firmware.Json
