import Firmware.Proofs.Response
/-!
# BlankLine — a head is read up to its blank line

Where a stream has its first blank line, the reading of a head stops, if that is within the room for a head; what stands
before the line is parsed.  A stream is too much for a head if the line comes too late, or never and the stream is
longer; else it breaks off (`readHead_stops`).
-/
namespace Firmware

/-! ## The text in front of a line end -/

theorem exists_front_of_ofText {text : String} {before : Bytes} {c : Char} (hc : c.toNat < 0x80)
    (h : Bytes.ofText text = before ++ [c.val.toUInt8]) :
    ∃ front, Bytes.ofText front = before ∧ text.toList = front.toList ++ [c] := by
  have hoctet : c.val.toUInt8.toNat = c.toNat := by
    rw [UInt32.toNat_toUInt8]
    exact Nat.mod_eq_of_lt (Nat.lt_of_lt_of_le hc (by decide))
  have hencode : String.utf8EncodeChar c = [c.val.toUInt8] :=
    String.utf8EncodeChar_eq_singleton (Char.utf8Size_eq_one_iff.2 (UInt32.le_iff_toNat_le.2 (Nat.le_of_lt_succ hc)))
  have htext : text.toList.flatMap String.utf8EncodeChar = before ++ [c.val.toUInt8] := by
    rw [← Bytes.ofText_ofList, String.ofList_toList, h]
  rcases List.eq_nil_or_concat text.toList with hnil | ⟨front, d, hfront⟩
  · rw [hnil] at htext
    simp at htext
  rw [List.concat_eq_append] at hfront
  rw [hfront, List.flatMap_append, List.flatMap_singleton] at htext
  -- the last octet of the last character is the octet
  obtain ⟨ahead, b, hd⟩ := (List.eq_nil_or_concat (String.utf8EncodeChar d)).resolve_left String.utf8EncodeChar_ne_nil
  rw [List.concat_eq_append] at hd
  have hb : b = c.val.toUInt8 := by
    rw [hd, ← List.append_assoc] at htext
    exact List.singleton_inj.1 (List.append_inj' htext rfl).2
  have hdc : d = c := by
    have hmem : b ∈ String.utf8EncodeChar d := by simp [hd]
    rcases octet_of_utf8EncodeChar hmem with hcode | hlarge
    · rw [hb, hoctet] at hcode
      exact (Char.toNat_inj.1 hcode).symm
    · rw [hb, hoctet] at hlarge
      omega
  rw [hdc, hencode] at htext
  exact ⟨String.ofList front, by rw [Bytes.ofText_ofList, (List.append_inj' htext rfl).1], by simp [hfront, hdc]⟩

theorem exists_front_of_crlf {text : String} {before : Bytes} (h : Bytes.ofText text = before ++ [0x0D, 0x0A]) :
    ∃ front, Bytes.ofText front = before ∧ text = front ++ "\r\n" := by
  have hsplit : Bytes.ofText text = before ++ [0x0D] ++ ['\n'.val.toUInt8] := by
    rw [h, List.append_assoc]
    rfl
  obtain ⟨line, hline, htext⟩ := exists_front_of_ofText (by decide) hsplit
  have hcr : Bytes.ofText line = before ++ ['\r'.val.toUInt8] := hline
  obtain ⟨front, hfront, hlist⟩ := exists_front_of_ofText (by decide) hcr
  refine ⟨front, hfront, String.toList_inj.1 ?_⟩
  rw [htext, hlist, String.toList_append, List.append_assoc]
  rfl

namespace Http

variable {head rest before stream : Bytes} {p q : Nat}

/-! ## The first blank line -/

/-- The first line of a stream that is blank, CR LF and nothing else, ends at octet `p`. -/
def EndsAt (stream : Bytes) (p : Nat) : Prop := p ≤ stream.length ∧ IsHead (stream.take p)

theorem EndsAt.unique (h : EndsAt stream p) (h' : EndsAt stream q) : p = q := by
  have htake : stream.take p = stream.take q :=
    h.2.unique h'.2 ((List.take_append_drop p stream).trans (List.take_append_drop q stream).symm)
  have hlength := congrArg List.length htake
  rwa [List.length_take_of_le h.1, List.length_take_of_le h'.1] at hlength

theorem endsAt_append (h : IsHead head) (rest : Bytes) : EndsAt (head ++ rest) head.length := by
  refine ⟨by simp, ?_⟩
  rwa [List.take_left]

theorem IsHead.exists_before (h : IsHead head) : ∃ before, head = before ++ [0x0D, 0x0A] := by
  induction h with
  | blank => exact ⟨[], rfl⟩
  | @line line more _ _ _ ih =>
    obtain ⟨before, rfl⟩ := ih
    exact ⟨line ++ 0x0A :: before, by simp⟩

theorem EndsAt.take_eq (h : EndsAt stream p) : stream.take p = stream.take (p - 2) ++ [0x0D, 0x0A] := by
  obtain ⟨before, hbefore⟩ := h.2.exists_before
  have hlength := congrArg List.length hbefore
  rw [List.length_take_of_le h.1, List.length_append, List.length_cons, List.length_singleton] at hlength
  have hfront : stream.take (p - 2) = (stream.take p).take before.length := by
    rw [List.take_take, hlength]
    congr 1
    omega
  rw [hfront, hbefore, List.take_left]

/-! ## What is read -/

theorem headOf_of_no_text (h : ∀ text, Bytes.ofText text ≠ head) : headOf head = .error .protocol := by
  have hnone : head.text? = none := Option.eq_none_iff_forall_ne_some.2 fun text htext =>
    h text (Bytes.text?_eq_some_iff.1 htext)
  rw [headOf, hnone]

theorem headOf_append_crlf {lines : String} (h : Bytes.ofText lines = before) :
    headOf (before ++ [0x0D, 0x0A]) = Head.parse lines.toList := by
  have hcrlf : Bytes.ofText (String.ofList (lines.toList ++ ['\r', '\n'])) = before ++ [0x0D, 0x0A] := by
    rw [← h, Bytes.ofText_ofList, List.flatMap_append, ← Bytes.ofText_ofList, String.ofList_toList]
    rfl
  rw [← hcrlf, Head.headOf_ofText, Head.parse_append_crlf]

theorem readHead_of_endsAt (h : EndsAt stream p) (hfits : p ≤ maxHeadLength) :
    readHead stream = (headOf (stream.take p), stream.drop p) := by
  have hlength : (stream.take p).length ≤ maxHeadLength := by rwa [List.length_take_of_le h.1]
  have hread := readHead_of_isHead h.2 hlength (stream.drop p)
  rwa [List.take_append_drop] at hread

theorem readHead_too_large (hlate : ∀ p, EndsAt stream p → maxHeadLength < p) (hlong : maxHeadLength < stream.length) :
    (readHead stream).1 = .error .headerTooLarge := by
  have hreading := headReading_readHead stream
  generalize readHead stream = outcome at hreading
  cases hreading with
  | @complete head rest hstream hhead hfits =>
    have hends := endsAt_append hhead rest
    rw [← hstream] at hends
    exact absurd hfits (Nat.not_le.2 (hlate _ hends))
  | tooLarge hstream hlarge => rfl
  | broken hfits => exact absurd hfits (Nat.not_le.2 hlong)

theorem readHead_breaks_off (hnone : ∀ p, ¬ EndsAt stream p) (hshort : stream.length ≤ maxHeadLength) :
    readHead stream = (.error .network, []) := by
  have hreading := headReading_readHead stream
  generalize readHead stream = outcome at hreading
  cases hreading with
  | @complete head rest hstream hhead hfits => exact absurd (hstream ▸ endsAt_append hhead rest) (hnone _)
  | @tooLarge front rest hstream hlarge =>
    rw [hstream, List.length_append] at hshort
    exact absurd (Nat.le_trans (Nat.le_add_right _ _) hshort) (Nat.not_le.2 hlarge)
  | broken hfits => rfl

theorem readHead_suffix (stream : Bytes) : (readHead stream).2 <:+ stream := by
  have hreading := headReading_readHead stream
  generalize readHead stream = outcome at hreading
  cases hreading with
  | complete hstream hhead hfits => exact ⟨_, hstream.symm⟩
  | tooLarge hstream hlarge => exact ⟨_, hstream.symm⟩
  | broken hfits => exact List.nil_suffix

/-- **The reading of a head stops at the first blank line, or with an error.**  Within the room for a head it takes the
stream up to the end of that line, and parses what stands before the line, if it is text.  A line that ends later, or
none in a longer stream, is too much; a shorter stream without one breaks off.  What is left of a stream is always an
end of it. -/
theorem readHead_stops (stream : Bytes) :
    (∀ p q, EndsAt stream p → EndsAt stream q → p = q) ∧
    (∀ p, EndsAt stream p → p ≤ 2048 →
      (readHead stream).2 = stream.drop p ∧
      ((∀ text, Bytes.ofText text ≠ stream.take p) → (readHead stream).1 = .error .protocol) ∧
      ∀ text, Bytes.ofText text = stream.take p → ∃ lines, text = lines ++ "\r\n" ∧
        Bytes.ofText lines = stream.take (p - 2) ∧ (readHead stream).1 = Head.parse lines.toList) ∧
    (∀ p, EndsAt stream p → 2048 < p → (readHead stream).1 = .error .headerTooLarge) ∧
    ((∀ p, ¬ EndsAt stream p) → 2048 < stream.length → (readHead stream).1 = .error .headerTooLarge) ∧
    ((∀ p, ¬ EndsAt stream p) → stream.length ≤ 2048 → (readHead stream).1 = .error .network) ∧
    (readHead stream).2 <:+ stream := by
  refine ⟨fun _ _ h h' => h.unique h', fun p h hfits => ?_, fun p h hlate => ?_, fun hnone hlong => ?_,
    fun hnone hshort => ?_, readHead_suffix stream⟩
  · rw [readHead_of_endsAt h hfits]
    refine ⟨rfl, headOf_of_no_text, fun text htext => ?_⟩
    rw [h.take_eq] at htext ⊢
    obtain ⟨lines, hlines, rfl⟩ := exists_front_of_crlf htext
    exact ⟨lines, rfl, hlines, headOf_append_crlf hlines⟩
  · exact readHead_too_large (fun q hq => h.unique hq ▸ hlate) (Nat.lt_of_lt_of_le hlate h.1)
  · exact readHead_too_large (fun p hp => absurd hp (hnone p)) hlong
  · rw [readHead_breaks_off hnone hshort]

/-- A status line that a bare LF does not end, a blank line, and a body. -/
def bareLf : Bytes := Bytes.ofText "HTTP/1.1 204 A\nB\r\n\r\nrest"

def filled (n : Nat) : Bytes := List.replicate n 0x61 ++ 0x0A :: [0x0D, 0x0A]

theorem endsAt_filled (n : Nat) : EndsAt (filled n) (n + 3) := by
  have hline : (0x0A : UInt8) ∉ List.replicate n (0x61 : UInt8) := fun h =>
    absurd (List.eq_of_mem_replicate h) (by decide)
  have hblank : List.replicate n (0x61 : UInt8) ≠ [0x0D] := fun h =>
    absurd (List.eq_of_mem_replicate (h ▸ List.mem_singleton_self _)) (by decide)
  have hends := endsAt_append (.line hline hblank .blank) []
  rwa [List.append_nil, List.length_append, List.length_replicate] at hends

def garbled : Bytes := [0xFF, 0x0A, 0x0D, 0x0A]

def cutOff : Bytes := [0x61, 0x0A, 0x0D]

theorem bareLf_readHead_stops :
    EndsAt bareLf 20 ∧ (readHead bareLf).2 = Bytes.ofText "rest" ∧ (readHead bareLf).1 = .ok { status := 204 } ∧
      EndsAt garbled 4 ∧ readHead garbled = (.error .protocol, []) ∧
      EndsAt (filled 2046) 2049 ∧ (readHead (filled 2046)).1 = .error .headerTooLarge ∧
      (∀ p, ¬ EndsAt cutOff p) ∧ (readHead cutOff).1 = .error .network := by
  have hfirst : IsHead (Bytes.ofText "HTTP/1.1 204 A" ++ 0x0A :: (Bytes.ofText "B\r" ++ 0x0A :: [0x0D, 0x0A])) :=
    .line (by decide) (by decide) (.line (by decide) (by decide) .blank)
  have hends : EndsAt bareLf 20 := endsAt_append hfirst (Bytes.ofText "rest")
  have htext : Bytes.ofText "HTTP/1.1 204 A\nB\r\n\r\n" = bareLf.take 20 := by decide
  have hbad : IsHead ([0xFF] ++ 0x0A :: [0x0D, 0x0A]) := .line (by decide) (by decide) .blank
  have hgarbled : EndsAt garbled 4 := endsAt_append hbad []
  have hno : ∀ text, Bytes.ofText text ≠ garbled.take 4 := fun text htext => by
    have hnone : Bytes.text? (garbled.take 4) = none := by decide
    rw [Bytes.text?_eq_some_iff.2 htext] at hnone
    cases hnone
  obtain ⟨hdrop, hprotocol, -⟩ := (readHead_stops garbled).2.1 4 hgarbled (by decide)
  have hnone : ∀ p, ¬ EndsAt cutOff p := fun p h => by
    have hblank : ∀ p ≤ 3, cutOff.take p ≠ cutOff.take (p - 2) ++ [0x0D, 0x0A] := by decide
    exact hblank p h.1 h.take_eq
  obtain ⟨hrest, -, hparse⟩ := (readHead_stops bareLf).2.1 20 hends (by decide)
  obtain ⟨lines, hlines, -, hhead⟩ := hparse _ htext
  have hbefore : lines = "HTTP/1.1 204 A\nB\r\n" := by
    have hlist := congrArg String.toList hlines
    rw [String.toList_append] at hlist
    exact String.toList_inj.1 (List.append_cancel_right hlist).symm
  rw [hbefore] at hhead
  exact ⟨hends, hrest, hhead.trans rfl, hgarbled, Prod.ext (hprotocol hno) hdrop, endsAt_filled 2046,
    (readHead_stops (filled 2046)).2.2.1 2049 (endsAt_filled 2046) (by decide), hnone,
    (readHead_stops cutOff).2.2.2.2.1 hnone (by decide)⟩

end Http
end Firmware
