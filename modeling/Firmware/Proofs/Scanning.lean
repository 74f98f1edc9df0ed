import Firmware.Text.Scan
/-!
# Scanning — a cut undoes the joining

What was joined by a separator that its parts do not contain comes apart at that separator again: lines at their ends,
a name and a value at the colon, a value and the blanks around it.
-/
namespace Firmware.Scan

variable {cs before value after line : List Char}

theorem forall_of_all {P : Char → Prop} [DecidablePred P] (h : (cs.all fun c => decide (P c)) = true) :
    ∀ c ∈ cs, P c := by
  simpa using h

/-! ## Separators -/

section Separator

variable {sep b a : List Char}

theorem length_le_of_splitOnce (h : splitOnce sep cs = some (before, after)) (hcs : cs = b ++ sep ++ a) :
    before.length ≤ b.length := by
  induction cs generalizing before b with
  | nil => cases h
  | cons c cs ih =>
    unfold splitOnce at h
    split at h
    · cases h
      exact Nat.zero_le _
    · rename_i hstart
      obtain ⟨⟨before', after'⟩, hsplit, hcons⟩ := Option.map_eq_some_iff.1 h
      cases hcons
      cases b with
      | nil => exact absurd (List.isPrefixOf_iff_prefix.2 ⟨a, hcs.symm⟩) hstart
      | cons d b => exact Nat.succ_le_succ (ih hsplit (List.cons.inj hcs).2)

theorem exists_splitOnce (hsep : sep ≠ []) (b a : List Char) : ∃ parts, splitOnce sep (b ++ sep ++ a) = some parts := by
  induction b with
  | nil =>
    obtain ⟨s, rest, rfl⟩ := List.exists_cons_of_ne_nil hsep
    have hstart : (s :: rest).isPrefixOf (s :: (rest ++ a)) = true :=
      List.isPrefixOf_iff_prefix.2 (List.prefix_append _ _)
    rw [List.nil_append, List.cons_append, splitOnce, if_pos hstart]
    exact ⟨_, rfl⟩
  | cons c b ih =>
    obtain ⟨parts, hparts⟩ := ih
    rw [List.cons_append, List.cons_append, splitOnce, hparts]
    split
    · exact ⟨_, rfl⟩
    · exact ⟨_, rfl⟩

/-- **A text is split at its first separator**: the one that the least stands before. -/
theorem splitOnce_eq_some_iff (hsep : sep ≠ []) :
    splitOnce sep cs = some (before, after) ↔
      cs = before ++ sep ++ after ∧ ∀ b a, cs = b ++ sep ++ a → before.length ≤ b.length := by
  constructor
  · exact fun h => ⟨eq_of_splitOnce h, fun _ _ hcs => length_le_of_splitOnce h hcs⟩
  · rintro ⟨rfl, hleast⟩
    obtain ⟨⟨first, rest⟩, hsplit⟩ := exists_splitOnce hsep before after
    have hparts := eq_of_splitOnce hsplit
    have hlength : before.length = first.length :=
      Nat.le_antisymm (hleast first rest hparts) (length_le_of_splitOnce hsplit rfl)
    simp only [List.append_assoc] at hparts
    obtain ⟨rfl, hrest⟩ := List.append_inj hparts hlength
    rw [hsplit, List.append_cancel_left hrest]

theorem splitOnce_append (hsep : sep ≠ []) (h : splitOnce sep cs = some (before, after)) (more : List Char) :
    splitOnce sep (cs ++ more) = some (before, after ++ more) := by
  have hcs := eq_of_splitOnce h
  refine (splitOnce_eq_some_iff hsep).2 ⟨by rw [hcs, List.append_assoc], fun b a hmore => Nat.not_lt.1 fun hlt => ?_⟩
  -- a separator that begins before the first one ends within the text
  have hlength : (b ++ sep).length ≤ cs.length := by
    simp only [hcs, List.length_append]
    omega
  obtain ⟨rest, hrest⟩ := List.prefix_of_prefix_length_le ⟨a, hmore.symm⟩ (List.prefix_append cs more) hlength
  exact Nat.not_le.2 hlt (length_le_of_splitOnce h hrest.symm)

end Separator

theorem splitOnce_singleton {x : Char} (h : x ∉ before) (after : List Char) :
    splitOnce [x] (before ++ x :: after) = some (before, after) := by
  induction before with
  | nil => simp [splitOnce]
  | cons c before ih =>
    obtain ⟨hc, hbefore⟩ := not_or.1 (mt List.mem_cons.2 h)
    have hstart : [x].isPrefixOf (c :: (before ++ x :: after)) = false := by simp [List.isPrefixOf, hc]
    rw [List.cons_append, splitOnce, hstart, ih hbefore]
    rfl

/-! ## Lines -/

theorem crlfLines_ne_nil (cs : List Char) : crlfLines cs ≠ [] := by
  fun_cases crlfLines cs <;> simp_all

theorem crlfLines_append (cs rest : List Char) :
    crlfLines (cs ++ '\r' :: '\n' :: rest) = crlfLines cs ++ crlfLines rest := by
  fun_induction crlfLines cs with
  | case1 => rw [List.nil_append, crlfLines, List.singleton_append]
  | case2 cs ih => rw [List.cons_append, List.cons_append, crlfLines, ih, List.cons_append]
  | case3 c cs hc line lines hlines ih =>
    -- a CR at the end of `cs` does not pair with the LF behind the next CR
    have hstart : ∀ more, c = '\r' → cs ++ '\r' :: '\n' :: rest = '\n' :: more → False := by
      intro more hr hn
      cases cs with
      | nil => cases hn
      | cons d cs =>
        obtain ⟨rfl, -⟩ := List.cons.inj hn
        exact hc cs hr rfl
    rw [List.cons_append, crlfLines.eq_3 c _ hstart, ih, hlines]
    rfl
  | case4 c cs hc hlines ih => exact absurd hlines (crlfLines_ne_nil cs)

theorem crlfLines_eq_singleton (h : ¬ ['\r', '\n'] <:+: line) : crlfLines line = [line] := by
  induction line with
  | nil => rw [crlfLines]
  | cons c line ih =>
    have hstart : ∀ more, c = '\r' → line = '\n' :: more → False := by
      rintro more rfl rfl
      exact h ⟨[], more, rfl⟩
    rw [crlfLines.eq_3 c _ hstart, ih fun hline => h (hline.trans (List.suffix_cons c line).isInfix)]

theorem crlfLines_flatMap {lines : List (List Char)} (h : ∀ line ∈ lines, '\r' ∉ line) (rest : List Char) :
    crlfLines (lines.flatMap (· ++ ['\r', '\n']) ++ rest) = lines ++ crlfLines rest := by
  induction lines with
  | nil => rfl
  | cons line lines ih =>
    obtain ⟨hline, hlines⟩ := List.forall_mem_cons.1 h
    have hfirst := crlfLines_append line (lines.flatMap (· ++ ['\r', '\n']) ++ rest)
    rw [ih hlines, crlfLines_eq_singleton fun hcrlf => hline (hcrlf.subset List.mem_cons_self)] at hfirst
    simpa using hfirst

theorem crlfLines_joined {lines : List (List Char)} (hline : ¬ ['\r', '\n'] <:+: line)
    (hlines : ∀ line ∈ lines, ¬ ['\r', '\n'] <:+: line) :
    crlfLines (line ++ lines.flatMap fun line => '\r' :: '\n' :: line) = line :: lines := by
  induction lines generalizing line with
  | nil => rw [List.flatMap_nil, List.append_nil, crlfLines_eq_singleton hline]
  | cons next lines ih =>
    obtain ⟨hnext, hmore⟩ := List.forall_mem_cons.1 hlines
    rw [List.flatMap_cons, List.cons_append, List.cons_append, crlfLines_append, ih hnext hmore,
      crlfLines_eq_singleton hline, List.singleton_append]

/-! ## Words -/

variable {word : List Char}

theorem isBlank_of_isDigit {c : Char} (h : c.isDigit = true) : isBlank c = false := by
  simp only [Char.isDigit, Bool.and_eq_true, decide_eq_true_eq, UInt32.le_iff_toNat_le] at h
  have hlow : 0x30 ≤ c.toNat := h.1
  have hhigh : c.toNat ≤ 0x39 := h.2
  simp only [isBlank, Bool.or_eq_false_iff, Bool.and_eq_false_iff, decide_eq_false_iff_not, beq_eq_false_iff_ne]
  omega

theorem sameName_iff {a b : List Char} (hb : b.map Char.toLower = b) :
    sameName a b = true ↔ a.map Char.toLower = b := by
  simp [sameName, hb]

theorem words_cons (hword : ∀ c ∈ word, isBlank c = false) (hne : word ≠ []) {blank : Char}
    (hblank : isBlank blank = true) (rest : List Char) : words (word ++ blank :: rest) = word :: words rest := by
  rw [words, List.splitOnP_append_cons_of_forall_mem hword blank hblank,
    List.filter_cons_of_pos (by simpa using hne), words]

theorem words_blanks {lead : List Char} (h : ∀ c ∈ lead, isBlank c = true) (cs : List Char) :
    words (lead ++ cs) = words cs := by
  induction lead with
  | nil => rfl
  | cons blank lead ih =>
    obtain ⟨hblank, hlead⟩ := List.forall_mem_cons.1 h
    have hcut := List.splitOnP_append_cons_of_forall_mem (List.forall_mem_nil _) blank hblank (lead ++ cs)
    rw [List.nil_append] at hcut
    rw [List.cons_append, words, hcut, List.filter_cons_of_neg (by simp), ← words, ih hlead]

theorem words_word (hword : ∀ c ∈ word, isBlank c = false) (hne : word ≠ []) {rest : List Char}
    (hrest : ∀ c, rest.head? = some c → isBlank c = true) : words (word ++ rest) = word :: words rest := by
  cases rest with
  | nil =>
    rw [List.append_nil, words, List.splitOnP_eq_singleton hword, List.filter_cons_of_pos (by simpa using hne),
      List.filter_nil]
    rfl
  | cons blank rest =>
    have hblank := hrest blank rfl
    rw [words_cons hword hne hblank, ← words_blanks (List.forall_mem_singleton.2 hblank) rest, List.singleton_append]

theorem words_append (hword : ∀ c ∈ word, isBlank c = false) (hne : word ≠ []) {rest : List Char}
    (hrest : ∀ c, rest.head? = some c → isBlank c = true) : ∃ more, words (word ++ rest) = word :: more :=
  ⟨words rest, words_word hword hne hrest⟩

/-- The first word of a text is `word`: it stands behind blanks and ends at a blank or with the text. -/
structure FirstWord (cs word rest : List Char) : Prop where
  parts : ∃ lead, cs = lead ++ word ++ rest ∧ ∀ c ∈ lead, isBlank c = true
  ne_nil : word ≠ []
  unbroken : ∀ c ∈ word, isBlank c = false
  ends : ∀ c, rest.head? = some c → isBlank c = true

theorem FirstWord.words_eq {rest : List Char} (h : FirstWord cs word rest) : words cs = word :: words rest := by
  obtain ⟨lead, rfl, hlead⟩ := h.parts
  rw [List.append_assoc, words_blanks hlead, words_word h.unbroken h.ne_nil h.ends]

theorem blank_or_firstWord (cs : List Char) :
    (∀ c ∈ cs, isBlank c = true) ∨ ∃ word rest, FirstWord cs word rest := by
  induction cs with
  | nil => exact .inl (List.forall_mem_nil _)
  | cons c cs ih =>
    by_cases hc : isBlank c = true
    · rcases ih with hall | ⟨word, rest, h⟩
      · exact .inl (List.forall_mem_cons.2 ⟨hc, hall⟩)
      · obtain ⟨lead, rfl, hlead⟩ := h.parts
        exact .inr ⟨word, rest, ⟨c :: lead, rfl, List.forall_mem_cons.2 ⟨hc, hlead⟩⟩, h.ne_nil, h.unbroken, h.ends⟩
    · have hc : isBlank c = false := by simpa using hc
      refine .inr ⟨c :: cs.takeWhile (!isBlank ·), cs.dropWhile (!isBlank ·), ⟨[], by simp, by simp⟩, by simp,
        List.forall_mem_cons.2 ⟨hc, fun x hx => ?_⟩, fun x hx => ?_⟩
      · simpa using List.all_eq_true.1 List.all_takeWhile x hx
      · have hnot := List.head?_dropWhile_not (!isBlank ·) cs
        rw [hx] at hnot
        simpa using hnot

/-- **The words of a text are its first word and the words of what follows it.** -/
theorem words_eq_cons_iff {ws : List (List Char)} :
    words cs = word :: ws ↔ ∃ rest, FirstWord cs word rest ∧ words rest = ws := by
  constructor
  · intro h
    rcases blank_or_firstWord cs with hall | ⟨first, rest, hfirst⟩
    · rw [← List.append_nil cs, words_blanks hall] at h
      cases h
    · rw [hfirst.words_eq] at h
      obtain ⟨rfl, hws⟩ := List.cons.inj h
      exact ⟨rest, hfirst, hws⟩
  · rintro ⟨rest, hfirst, rfl⟩
    exact hfirst.words_eq

/-! ## Blanks -/

def strip (p : Char → Bool) (cs : List Char) : List Char := ((cs.dropWhile p).reverse.dropWhile p).reverse

theorem trim_eq_strip (cs : List Char) : trim cs = strip isBlank cs := rfl

structure Bare (p : Char → Bool) (cs : List Char) : Prop where
  front : ∀ c, cs.head? = some c → p c = false
  back : ∀ c, cs.getLast? = some c → p c = false

variable {p : Char → Bool}

theorem bare_iff : Bare p cs ↔ cs.head?.all (!p ·) = true ∧ cs.getLast?.all (!p ·) = true := by
  have hends (end? : Option Char) : end?.all (!p ·) = true ↔ ∀ c, end? = some c → p c = false := by
    cases end? <;> simp
  rw [hends, hends]
  exact ⟨fun h => ⟨h.front, h.back⟩, fun h => ⟨h.1, h.2⟩⟩

theorem bare_of_forall (h : ∀ c ∈ cs, p c = false) : Bare p cs :=
  ⟨fun c hc => h c (List.mem_of_head? hc), fun c hc => h c (List.mem_of_getLast? hc)⟩

instance : Decidable (Bare p cs) := decidable_of_iff _ bare_iff.symm

theorem dropWhile_append_of_bare (hbefore : ∀ c ∈ before, p c = true) (h : ∀ c, cs.head? = some c → p c = false) :
    (before ++ cs).dropWhile p = cs := by
  rw [List.dropWhile_append_of_pos hbefore]
  cases cs with
  | nil => rfl
  | cons c cs => rw [List.dropWhile_cons_of_neg (by simp [h c rfl])]

theorem strip_padded (hbefore : ∀ c ∈ before, p c = true) (hvalue : Bare p value) (hafter : ∀ c ∈ after, p c = true) :
    strip p (before ++ value ++ after) = value := by
  cases hne : value with
  | nil =>
    have hall : ∀ c ∈ before ++ after, p c = true := fun c hc => (List.mem_append.1 hc).elim (hbefore c) (hafter c)
    have hnil : (before ++ after ++ []).dropWhile p = [] := dropWhile_append_of_bare hall (by simp)
    rw [List.append_nil] at hnil
    rw [List.append_nil, strip, hnil]
    rfl
  | cons c cs =>
    have hfront : (before ++ value ++ after).dropWhile p = value ++ after := by
      rw [List.append_assoc]
      exact dropWhile_append_of_bare hbefore fun x hx => hvalue.front x (by simpa [hne] using hx)
    have hback : (value ++ after).reverse.dropWhile p = value.reverse := by
      rw [List.reverse_append]
      exact dropWhile_append_of_bare (by simpa using hafter) fun x hx => hvalue.back x (by simpa using hx)
    rw [← hne, strip, hfront, hback, List.reverse_reverse]

theorem strip_append (p : Char → Bool) (cs : List Char) :
    ∃ after, strip p cs ++ after = cs.dropWhile p ∧ ∀ c ∈ after, p c = true := by
  have hparts := List.takeWhile_append_dropWhile (p := p) (l := (cs.dropWhile p).reverse)
  refine ⟨((cs.dropWhile p).reverse.takeWhile p).reverse, ?_, fun c hc => ?_⟩
  · rw [strip, ← List.reverse_append, hparts, List.reverse_reverse]
  · exact List.all_eq_true.1 List.all_takeWhile c (List.mem_reverse.1 hc)

theorem exists_strip (p : Char → Bool) (cs : List Char) :
    ∃ before after, cs = before ++ strip p cs ++ after ∧ (∀ c ∈ before, p c = true) ∧ ∀ c ∈ after, p c = true := by
  obtain ⟨after, hafter, hall⟩ := strip_append p cs
  refine ⟨cs.takeWhile p, after, ?_, List.all_eq_true.1 List.all_takeWhile, hall⟩
  rw [List.append_assoc, hafter, List.takeWhile_append_dropWhile]

theorem bare_strip (p : Char → Bool) (cs : List Char) : Bare p (strip p cs) := by
  refine ⟨fun c hc => ?_, fun c hc => ?_⟩
  · obtain ⟨rest, hrest, -⟩ := strip_append p cs
    have hhead := List.head?_dropWhile_not p cs
    rw [← hrest, List.head?_append, hc] at hhead
    simpa using hhead
  · have hlast := List.head?_dropWhile_not p (cs.dropWhile p).reverse
    rw [strip, List.getLast?_reverse] at hc
    rw [hc] at hlast
    simpa using hlast

theorem mem_of_mem_strip {c : Char} (h : c ∈ strip p cs) : c ∈ cs := by
  obtain ⟨rest, hrest, -⟩ := strip_append p cs
  exact (List.dropWhile_suffix p).subset (hrest ▸ List.mem_append_left _ h)

theorem strip_surrounded (hbefore : ∀ c ∈ before, p c = true) (hafter : ∀ c ∈ after, p c = true) (cs : List Char) :
    strip p (before ++ cs ++ after) = strip p cs := by
  obtain ⟨lead, trail, hcs, hlead, htrail⟩ := exists_strip p cs
  have hall : before ++ cs ++ after = before ++ lead ++ strip p cs ++ (trail ++ after) := by
    calc before ++ cs ++ after = before ++ (lead ++ strip p cs ++ trail) ++ after := by rw [← hcs]
      _ = _ := by simp only [List.append_assoc]
  rw [hall]
  exact strip_padded (List.forall_mem_append.2 ⟨hbefore, hlead⟩) (bare_strip p cs)
    (List.forall_mem_append.2 ⟨htrail, hafter⟩)

end Firmware.Scan
