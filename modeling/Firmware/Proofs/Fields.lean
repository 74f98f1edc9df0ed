import Firmware.Proofs.Decimal
import Firmware.Proofs.Response
/-!
# Fields — a head is read as it is written

A head is a status line and fields, each on a line of its own.  Names may repeat and be written in either case, values
may be empty and have blanks around them.  Two names count.  `Field.Offends` says which values they may not have, with
the error each leads to, and `Head.Says` what a head that is read holds: of each name the last value.  The first field
that offends decides (`parse_eq_error_of_offends`), and the order of the fields matters within one name only.
-/
namespace Firmware.Http

namespace Field

variable {f g : Field} {fields fields' : List Field} {e : FetchError} {head : Head}

def text (f : Field) : List Char := Scan.trim f.value

/-- A field that can be told from its neighbours: nothing ends its name or its line early. -/
structure Written (f : Field) : Prop where
  name : ∀ c ∈ f.name, c ≠ ':' ∧ c ≠ '\r' ∧ c ≠ '\n'
  lead : ∀ c ∈ f.lead, Scan.isBlank c = true
  value : ∀ c ∈ f.value, c ≠ '\r' ∧ c ≠ '\n'
  trail : ∀ c ∈ f.trail, Scan.isBlank c = true
  clean : ¬ ['\r', '\n'] <:+: f.line

/-- What is wrong with the value of a field that counts. -/
inductive Offends (f : Field) : FetchError → Prop
  | length (named : f.isNamed "content-length" = true) (unspelled : ∀ n < UInt64.size, ¬ Decimal.Spells f.text n) :
    Offends f .protocol
  | range (named : f.isNamed "content-range" = true) (long : 32 < (String.ofList f.text).utf8ByteSize) :
    Offends f .headerTooLarge

def Sound (f : Field) : Prop := ∀ e, ¬ f.Offends e

def counts (f : Field) : Bool := f.isNamed "content-length" || f.isNamed "content-range"

/-- The last field of a name, in whichever case it is written. -/
def last? (name : String) (fields : List Field) : Option Field := (fields.filter (isNamed name)).getLast?

theorem WellFormed.written (h : f.WellFormed) : f.Written where
  name := fun c hc => ⟨fun heq => h.name (heq ▸ hc), h.clean c (List.mem_append_left _ hc)⟩
  lead := h.lead
  value := fun c hc => h.clean c (by simp [line, hc])
  trail := h.trail
  clean := fun hcrlf => (h.clean '\r' (hcrlf.subset List.mem_cons_self)).1 rfl

/-! ## Without the blanks -/

def bared (f : Field) : Field := ⟨f.name, [], f.text, []⟩

theorem Written.wellFormed_bared (h : f.Written) : f.bared.WellFormed where
  name := fun hmem => (h.name ':' hmem).1 rfl
  lead := List.forall_mem_nil _
  value := Scan.bare_strip _ _
  trail := List.forall_mem_nil _
  clean := by
    intro c hc
    simp only [line, bared, List.nil_append, List.append_nil, List.mem_append, List.mem_cons] at hc
    rcases hc with hc | rfl | hc
    · exact (h.name c hc).2
    · decide
    · exact h.value c (Scan.mem_of_mem_strip hc)

theorem Written.addField_bared (h : f.Written) (head : Head) :
    Head.addField head f.bared.line = Head.addField head f.line := by
  have hname : ':' ∉ f.name := fun hmem => (h.name ':' hmem).1 rfl
  have htext : Scan.trim ([] ++ f.text ++ []) = f.text :=
    Scan.strip_padded (List.forall_mem_nil _) (Scan.bare_strip _ _) (List.forall_mem_nil _)
  have htrim : Scan.trim (f.lead ++ f.value ++ f.trail) = Scan.trim ([] ++ f.text ++ []) := by
    rw [htext]
    exact Scan.strip_surrounded h.lead h.trail f.value
  rw [Head.addField, Head.addField, line, line, bared, Scan.splitOnce_singleton hname, Scan.splitOnce_singleton hname]
  dsimp only
  rw [htrim]

theorem Written.addField_eq (h : f.Written) (head : Head) :
    Head.addField head f.line =
      if f.isNamed "content-length" then
        match Decimal.signed? UInt64.size f.text with
        | some n => .ok { head with contentLength := some (UInt64.ofNat n) }
        | none => .error .protocol
      else if f.isNamed "content-range" then
        match Bounded.ofText? 32 (String.ofList f.text) with
        | some range => .ok { head with contentRange := some range }
        | none => .error .headerTooLarge
      else .ok head := by
  rw [← h.addField_bared, Field.addField_eq h.wellFormed_bared]
  rfl

/-! ## Fields that offend -/

theorem Offends.addField_eq (h : f.Offends e) (hf : f.Written) (head : Head) :
    Head.addField head f.line = .error e := by
  rw [hf.addField_eq]
  cases h with
  | length named unspelled => rw [if_pos named, Decimal.signed?_eq_none_iff.2 unspelled]
  | range named long =>
    have hlength : ¬ f.isNamed "content-length" = true := fun hlength => by
      rw [not_isNamed_range hlength] at named
      cases named
    rw [if_neg hlength, if_pos named, Bounded.ofText?_eq_none.2 long]

theorem Sound.accepted_bared (h : f.Sound) (hf : f.Written) : f.bared.Accepted where
  wellFormed := hf.wellFormed_bared
  length := fun hname hnone => by
    rw [length?, if_pos hname, Option.map_eq_none_iff] at hnone
    exact h _ (.length hname (Decimal.signed?_eq_none_iff.1 hnone))
  range := fun hname hnone => by
    rw [range?, if_pos hname] at hnone
    exact h _ (.range hname (Bounded.ofText?_eq_none.1 hnone))

theorem sound_or_first_offends (fields : List Field) :
    (∀ f ∈ fields, f.Sound) ∨
      ∃ before f after e, fields = before ++ f :: after ∧ (∀ g ∈ before, g.Sound) ∧ f.Offends e := by
  induction fields with
  | nil => exact .inl (List.forall_mem_nil _)
  | cons f fields ih =>
    by_cases hf : f.Sound
    · rcases ih with hsound | ⟨before, g, after, e, rfl, hbefore, hg⟩
      · exact .inl (List.forall_mem_cons.2 ⟨hf, hsound⟩)
      · exact .inr ⟨f :: before, g, after, e, rfl, List.forall_mem_cons.2 ⟨hf, hbefore⟩, hg⟩
    · obtain ⟨e, he⟩ := Classical.not_forall.1 hf
      exact .inr ⟨[], f, fields, e, rfl, List.forall_mem_nil _, Classical.not_not.1 he⟩

/-! ## Runs of fields -/

theorem foldlM_bared (h : ∀ f ∈ fields, f.Written) (head : Head) :
    ((fields.map bared).map line).foldlM Head.addField head = (fields.map line).foldlM Head.addField head := by
  induction fields generalizing head with
  | nil => rfl
  | cons f fields ih =>
    obtain ⟨hf, hfields⟩ := List.forall_mem_cons.1 h
    simp only [List.map_cons, List.foldlM_cons, hf.addField_bared, ih hfields]

theorem foldlM_counts (h : ∀ f ∈ fields, f.Written) (head : Head) :
    ((fields.filter counts).map line).foldlM Head.addField head = (fields.map line).foldlM Head.addField head := by
  induction fields generalizing head with
  | nil => rfl
  | cons f fields ih =>
    obtain ⟨hf, hfields⟩ := List.forall_mem_cons.1 h
    by_cases hcounts : f.counts = true
    · simp only [List.filter_cons_of_pos hcounts, List.map_cons, List.foldlM_cons, ih hfields]
    · obtain ⟨hlength, hrange⟩ : ¬ f.isNamed "content-length" = true ∧ ¬ f.isNamed "content-range" = true := by
        simpa [counts] using hcounts
      rw [List.filter_cons_of_neg hcounts, ih hfields, List.map_cons, List.foldlM_cons, hf.addField_eq, if_neg hlength,
        if_neg hrange]
      rfl

theorem foldlM_offends (h : ∀ f ∈ fields, f.Written) {before after : List Field}
    (hfields : fields = before ++ f :: after) (hbefore : ∀ g ∈ before, g.Sound) (hf : f.Offends e) (head : Head) :
    (fields.map line).foldlM Head.addField head = .error e := by
  subst hfields
  obtain ⟨hwritten, hrest⟩ := List.forall_mem_append.1 h
  have haccepted : ∀ g ∈ before.map bared, g.Accepted :=
    List.forall_mem_map.2 fun g hg => (hbefore g hg).accepted_bared (hwritten g hg)
  rw [List.map_append, List.foldlM_append, ← foldlM_bared hwritten, foldlM_addField haccepted, List.map_cons]
  dsimp only [bind, Except.bind]
  rw [List.foldlM_cons, hf.addField_eq (hrest f List.mem_cons_self)]
  rfl

/-! ## The last of a name -/

theorem findSome?_eq_bind_find? {α β : Type} {g : α → Option β} {p : α → Bool} {l : List α}
    (h : ∀ a ∈ l, (g a).isSome = p a) : l.findSome? g = (l.find? p).bind g := by
  induction l with
  | nil => rfl
  | cons a l ih =>
    obtain ⟨ha, hl⟩ := List.forall_mem_cons.1 h
    cases hg : g a with
    | none =>
      rw [hg, Option.isSome_none] at ha
      rw [List.findSome?_cons_of_isNone (by rw [hg]; rfl), List.find?_cons_of_neg (by simp [← ha]), ih hl]
    | some b =>
      rw [hg, Option.isSome_some] at ha
      rw [List.findSome?_cons, hg, List.find?_cons_of_pos ha.symm, Option.bind_some, hg]

theorem getLast?_filterMap_bared {α : Type} {name : String} {value? : Field → Option α}
    (h : ∀ f ∈ fields, (value? f.bared).isSome = f.isNamed name) :
    ((fields.map bared).filterMap value?).getLast? = (last? name fields).bind fun f => value? f.bared := by
  rw [List.filterMap_map, List.getLast?_filterMap, last?, List.getLast?_filter]
  exact findSome?_eq_bind_find? fun f hf => h f (List.mem_reverse.1 hf)

theorem isNamed_of_last? {name : String} (h : last? name fields = some f) : f.isNamed name = true :=
  (List.mem_filter.1 (List.mem_of_getLast? h)).2

theorem length?_bared_eq_some_iff (hname : f.isNamed "content-length" = true) {n : UInt64} :
    f.bared.length? = some n ↔ Decimal.Spells f.text n.toNat := by
  have hbared : f.bared.isNamed "content-length" = true := hname
  rw [length?, if_pos hbared, Option.map_eq_some_iff]
  constructor
  · rintro ⟨m, hm, rfl⟩
    obtain ⟨hspells, hlt⟩ := Decimal.signed?_eq_some_iff.1 hm
    rwa [UInt64.toNat_ofNat_of_lt' hlt]
  · exact fun h => ⟨n.toNat, Decimal.signed?_eq_some_iff.2 ⟨h, n.toNat_lt⟩, UInt64.ofNat_toNat⟩

theorem range?_bared_eq_some_iff (hname : f.isNamed "content-range" = true) {r : Bounded 32} :
    f.bared.range? = some r ↔ r.text = String.ofList f.text := by
  have hbared : f.bared.isNamed "content-range" = true := hname
  rw [range?, if_pos hbared]
  exact Bounded.ofText?_eq_some

theorem Accepted.isSome_length? (h : f.Accepted) : f.length?.isSome = f.isNamed "content-length" := by
  by_cases hname : f.isNamed "content-length" = true
  · rw [hname, Option.isSome_iff_ne_none]
    exact h.length hname
  · rw [length?, if_neg hname, Bool.eq_false_iff.2 hname, Option.isSome_none]

theorem Accepted.isSome_range? (h : f.Accepted) : f.range?.isSome = f.isNamed "content-range" := by
  by_cases hname : f.isNamed "content-range" = true
  · rw [hname, Option.isSome_iff_ne_none]
    exact h.range hname
  · rw [range?, if_neg hname, Bool.eq_false_iff.2 hname, Option.isSome_none]

/-! ## Order -/

theorem mem_of_filter_isNamed_eq (h : ∀ name, fields.filter (isNamed name) = fields'.filter (isNamed name))
    (hf : f ∈ fields') : f ∈ fields := by
  have hself : f.isNamed (String.ofList f.name) = true := by simp [isNamed, Scan.sameName]
  have hmem := List.mem_filter.2 ⟨hf, hself⟩
  rw [← h] at hmem
  exact (List.mem_filter.1 hmem).1

theorem sameName_of_isNamed {name : String} (hf : f.isNamed name = true) (hg : g.isNamed name = true) :
    Scan.sameName f.name g.name = true := by
  simp only [isNamed, Scan.sameName, beq_iff_eq] at hf hg ⊢
  rw [hf, hg]

/-- No two fields have one name, in whichever case it is written. -/
def DistinctNames (fields : List Field) : Prop := fields.Pairwise fun f g => Scan.sameName f.name g.name = false

theorem filter_isNamed_of_perm (hperm : fields.Perm fields') (hdistinct : DistinctNames fields) (name : String) :
    fields.filter (isNamed name) = fields'.filter (isNamed name) := by
  have hfilter := hperm.filter (isNamed name)
  have hnamed : ∀ f ∈ fields.filter (isNamed name), f.isNamed name = true := fun f hf => (List.mem_filter.1 hf).2
  have hpairwise := List.Pairwise.filter (isNamed name) hdistinct
  -- there is one field of the name, or none
  rcases heq : fields.filter (isNamed name) with _ | ⟨f, _ | ⟨g, more⟩⟩
  · rw [heq] at hfilter
    exact (List.perm_nil.1 hfilter.symm).symm
  · rw [heq] at hfilter
    exact (List.perm_singleton.1 hfilter.symm).symm
  · rw [heq] at hnamed hpairwise
    have hsame := sameName_of_isNamed (hnamed f (by simp)) (hnamed g (by simp))
    rw [List.rel_of_pairwise_cons hpairwise List.mem_cons_self] at hsame
    cases hsame

end Field

/-! ## Heads -/

/-- A status line, and fields on lines of their own. -/
def headText (line : List Char) (fields : List Field) : List Char :=
  line ++ (fields.map Field.line).flatMap fun line => '\r' :: '\n' :: line

/-- The head is what is written: the status, the number of the last length, the text of the last range. -/
structure Head.Says (head : Head) (status : UInt16) (fields : List Field) : Prop where
  status : head.status = status
  length : ∀ n, head.contentLength = some n ↔
    ∃ f, Field.last? "content-length" fields = some f ∧ Decimal.Spells f.text n.toNat
  range : ∀ r, head.contentRange = some r ↔
    ∃ f, Field.last? "content-range" fields = some f ∧ r.text = String.ofList f.text

variable {s : StatusLine} {fields : List Field}

theorem Head.Says.unique {head head' : Head} {status : UInt16} (h : head.Says status fields)
    (h' : head'.Says status fields) : head = head' := by
  have hstatus : head.status = head'.status := h.status.trans h'.status.symm
  have hlength : head.contentLength = head'.contentLength :=
    Option.ext fun n => (h.length n).trans (h'.length n).symm
  have hrange : head.contentRange = head'.contentRange := Option.ext fun r => (h.range r).trans (h'.range r).symm
  cases head
  cases head'
  simp_all

theorem parse_headText_eq (hs : s.WellFormed) (hclean : ¬ ['\r', '\n'] <:+: s.line) (h : ∀ f ∈ fields, f.Written) :
    Head.parse (headText s.line fields) = (fields.map Field.line).foldlM Head.addField { status := s.status } := by
  have hlines : ∀ line ∈ fields.map Field.line, ¬ ['\r', '\n'] <:+: line :=
    List.forall_mem_map.2 fun f hf => (h f hf).clean
  have hfilter : (fields.map Field.line).filter (fun line => !line.isEmpty) = fields.map Field.line :=
    List.filter_eq_self.2 (List.forall_mem_map.2 fun f _ => by simpa using f.line_ne_nil)
  rw [Head.parse, headText, Scan.crlfLines_joined hclean hlines]
  dsimp only
  rw [hs.status?_line]
  dsimp only
  rw [hfilter]

/-- **Fields that do not offend are read as what they say.** -/
theorem exists_says_of_sound (hs : s.WellFormed) (hclean : ¬ ['\r', '\n'] <:+: s.line) (h : ∀ f ∈ fields, f.Written)
    (hsound : ∀ f ∈ fields, f.Sound) :
    ∃ head, Head.parse (headText s.line fields) = .ok head ∧ head.Says s.status fields := by
  have haccepted : ∀ f ∈ fields, f.bared.Accepted := fun f hf => (hsound f hf).accepted_bared (h f hf)
  rw [parse_headText_eq hs hclean h, ← Field.foldlM_bared h, Field.foldlM_addField (List.forall_mem_map.2 haccepted)]
  refine ⟨_, rfl, rfl, fun n => ?_, fun r => ?_⟩ <;> dsimp only
  · rw [Option.or_none, Field.getLast?_filterMap_bared fun f hf => (haccepted f hf).isSome_length?,
      Option.bind_eq_some_iff]
    exact exists_congr fun f => and_congr_right fun hlast =>
      Field.length?_bared_eq_some_iff (Field.isNamed_of_last? hlast)
  · rw [Option.or_none, Field.getLast?_filterMap_bared fun f hf => (haccepted f hf).isSome_range?,
      Option.bind_eq_some_iff]
    exact exists_congr fun f => and_congr_right fun hlast =>
      Field.range?_bared_eq_some_iff (Field.isNamed_of_last? hlast)

/-- **The first field that offends decides**, whatever comes after it. -/
theorem parse_eq_error_of_offends (hs : s.WellFormed) (hclean : ¬ ['\r', '\n'] <:+: s.line)
    (h : ∀ f ∈ fields, f.Written) {before after : List Field} {f : Field} {e : FetchError}
    (hfields : fields = before ++ f :: after) (hbefore : ∀ g ∈ before, g.Sound) (hf : f.Offends e) :
    Head.parse (headText s.line fields) = .error e := by
  rw [parse_headText_eq hs hclean h, Field.foldlM_offends h hfields hbefore hf]

theorem parse_eq_ok_iff (hs : s.WellFormed) (hclean : ¬ ['\r', '\n'] <:+: s.line) (h : ∀ f ∈ fields, f.Written)
    (head : Head) :
    Head.parse (headText s.line fields) = .ok head ↔ (∀ f ∈ fields, f.Sound) ∧ head.Says s.status fields := by
  constructor
  · intro hparse
    rcases Field.sound_or_first_offends fields with hsound | ⟨before, f, after, e, hfields, hbefore, hf⟩
    · obtain ⟨head', hparse', hsays⟩ := exists_says_of_sound hs hclean h hsound
      rw [hparse] at hparse'
      cases hparse'
      exact ⟨hsound, hsays⟩
    · rw [parse_eq_error_of_offends hs hclean h hfields hbefore hf] at hparse
      cases hparse
  · rintro ⟨hsound, hsays⟩
    obtain ⟨head', hparse, hsays'⟩ := exists_says_of_sound hs hclean h hsound
    rw [hparse, hsays'.unique hsays]

theorem parse_eq_error_iff (hs : s.WellFormed) (hclean : ¬ ['\r', '\n'] <:+: s.line) (h : ∀ f ∈ fields, f.Written)
    (e : FetchError) :
    Head.parse (headText s.line fields) = .error e ↔
      ∃ before f after, fields = before ++ f :: after ∧ (∀ g ∈ before, g.Sound) ∧ f.Offends e := by
  constructor
  · intro hparse
    rcases Field.sound_or_first_offends fields with hsound | ⟨before, f, after, e', hfields, hbefore, hf⟩
    · obtain ⟨head, hparse', -⟩ := exists_says_of_sound hs hclean h hsound
      rw [hparse] at hparse'
      cases hparse'
    · rw [parse_eq_error_of_offends hs hclean h hfields hbefore hf] at hparse
      cases hparse
      exact ⟨before, f, after, hfields, hbefore, hf⟩
  · rintro ⟨before, f, after, hfields, hbefore, hf⟩
    exact parse_eq_error_of_offends hs hclean h hfields hbefore hf

theorem parse_filter_counts (hs : s.WellFormed) (hclean : ¬ ['\r', '\n'] <:+: s.line) (h : ∀ f ∈ fields, f.Written) :
    Head.parse (headText s.line (fields.filter Field.counts)) = Head.parse (headText s.line fields) := by
  have hfilter : ∀ f ∈ fields.filter Field.counts, f.Written := fun f hf => h f (List.mem_filter.1 hf).1
  rw [parse_headText_eq hs hclean hfilter, parse_headText_eq hs hclean h, Field.foldlM_counts h]

/-- **The order of the fields matters within one name only.** -/
theorem parse_eq_ok_of_reordered (hs : s.WellFormed) (hclean : ¬ ['\r', '\n'] <:+: s.line)
    (h : ∀ f ∈ fields, f.Written) {fields' : List Field} {head : Head}
    (horder : ∀ name, fields.filter (Field.isNamed name) = fields'.filter (Field.isNamed name))
    (hparse : Head.parse (headText s.line fields) = .ok head) :
    Head.parse (headText s.line fields') = .ok head := by
  have hmem : ∀ f ∈ fields', f ∈ fields := fun f => Field.mem_of_filter_isNamed_eq horder
  obtain ⟨hsound, hsays⟩ := (parse_eq_ok_iff hs hclean h head).1 hparse
  refine (parse_eq_ok_iff hs hclean (fun f hf => h f (hmem f hf)) head).2 ⟨fun f hf => hsound f (hmem f hf), ?_⟩
  exact
    { status := hsays.status
      length := by simpa only [Field.last?, horder] using hsays.length
      range := by simpa only [Field.last?, horder] using hsays.range }

/-- **A head is read as it is written.**  It says the status, the last length and the last range, if no field offends;
else the first field that does decides.  The fields that do not count make no difference, and the order of the fields
none to a head that is read, but within one name. -/
theorem parse_headText (hs : s.WellFormed) (hclean : ¬ ['\r', '\n'] <:+: s.line) (h : ∀ f ∈ fields, f.Written) :
    (∀ head, Head.parse (headText s.line fields) = .ok head ↔
      (∀ f ∈ fields, f.Sound) ∧ head.Says s.status fields) ∧
    (∀ e, Head.parse (headText s.line fields) = .error e ↔
      ∃ before f after, fields = before ++ f :: after ∧ (∀ g ∈ before, g.Sound) ∧ f.Offends e) ∧
    Head.parse (headText s.line (fields.filter Field.counts)) = Head.parse (headText s.line fields) ∧
    (∀ fields' head, (∀ name, fields.filter (Field.isNamed name) = fields'.filter (Field.isNamed name)) →
      Head.parse (headText s.line fields) = .ok head → Head.parse (headText s.line fields') = .ok head) ∧
    ∀ fields' head, fields.Perm fields' → Field.DistinctNames fields →
      Head.parse (headText s.line fields) = .ok head → Head.parse (headText s.line fields') = .ok head :=
  ⟨parse_eq_ok_iff hs hclean h, parse_eq_error_iff hs hclean h, parse_filter_counts hs hclean h,
    fun _ _ horder => parse_eq_ok_of_reordered hs hclean h horder,
    fun _ _ hperm hdistinct => parse_eq_ok_of_reordered hs hclean h (Field.filter_isNamed_of_perm hperm hdistinct)⟩

/-! ### Heads with repeated names, and with fields that offend -/

def partialLine : StatusLine := ⟨[' '], "HTTP/1.1".toList, ['\t', ' '], 206, " Partial: Content".toList⟩

def lengthField (name value : String) : Field := ⟨name.toList, [' '], value.toList, ['\t']⟩

def rangeField (value : String) : Field := ⟨"content-RANGE".toList, ['\u2003'], value.toList, []⟩

def noteField : Field := ⟨"Note".toList, [], "Content-Length: 7".toList, []⟩

def toldTwice : List Field :=
  [lengthField "Content-Length" "5", noteField, rangeField "bytes 0-11/50", lengthField "CONTENT-LENGTH" "+0012"]

def toldOnce : List Field := [lengthField "content-length" "12", noteField, rangeField "bytes 0-11/50"]

def offending : List Field :=
  [lengthField "Content-Length" "5", rangeField "bytes 0-11/5000000000000000000000", lengthField "Content-Length" "-1"]

def twelve : Head := ⟨206, some 12, some ⟨"bytes 0-11/50", by decide⟩⟩

theorem partialLine_wellFormed : partialLine.WellFormed where
  lead := Scan.forall_of_all (by decide)
  version := by decide
  word := Scan.forall_of_all (by decide)
  gap := ⟨by decide, Scan.forall_of_all (by decide)⟩
  rest := by
    rintro c ⟨⟩
    rfl

theorem partialLine_parse_headText :
    partialLine.WellFormed ∧ ¬ ['\r', '\n'] <:+: partialLine.line ∧
      (∀ f ∈ toldTwice ++ toldOnce ++ offending, f.Written) ∧
      Head.parse (headText partialLine.line toldTwice) = .ok twelve ∧
      (∀ f ∈ toldTwice, f.Sound) ∧ twelve.Says 206 toldTwice ∧
      Head.parse (headText partialLine.line (toldTwice.filter Field.counts)) = .ok twelve ∧
      Field.DistinctNames toldOnce ∧ Head.parse (headText partialLine.line toldOnce.reverse) = .ok twelve ∧
      Head.parse (headText partialLine.line offending) = .error .headerTooLarge ∧
      ∃ before f after, offending = before ++ f :: after ∧ (∀ g ∈ before, g.Sound) ∧ f.Offends .headerTooLarge := by
  have hcr : '\r' ∉ partialLine.line := by decide
  have hclean : ¬ ['\r', '\n'] <:+: partialLine.line := fun hcrlf => hcr (hcrlf.subset List.mem_cons_self)
  have hwell : ∀ f ∈ toldTwice ++ toldOnce ++ offending, f.WellFormed := by decide
  have hwritten : ∀ f ∈ toldTwice ++ toldOnce ++ offending, f.Written := fun f hf => (hwell f hf).written
  obtain ⟨htold, hoffending⟩ := List.forall_mem_append.1 hwritten
  obtain ⟨htwice, honce⟩ := List.forall_mem_append.1 htold
  have hparse : Head.parse (headText partialLine.line toldTwice) = .ok twelve := rfl
  have hdistinct : Field.DistinctNames toldOnce := by
    unfold Field.DistinctNames
    decide
  have hrefused : Head.parse (headText partialLine.line offending) = .error .headerTooLarge := rfl
  obtain ⟨hok, -, hcounts, -, -⟩ := parse_headText partialLine_wellFormed hclean htwice
  obtain ⟨-, -, -, -, horder⟩ := parse_headText partialLine_wellFormed hclean honce
  obtain ⟨-, herror, -, -, -⟩ := parse_headText partialLine_wellFormed hclean hoffending
  obtain ⟨hsound, hsays⟩ := (hok twelve).1 hparse
  exact ⟨partialLine_wellFormed, hclean, hwritten, hparse, hsound, hsays, hcounts.trans hparse, hdistinct,
    horder _ twelve (List.reverse_perm _).symm hdistinct rfl, hrefused, (herror _).1 hrefused⟩

end Firmware.Http
