import Firmware.Proofs.Framing
import Firmware.Proofs.Printing
import Firmware.Proofs.Scanning
/-!
# Response — responses as they are written

A response is a status line, header fields, a blank line and a body.  `Response.WellFormed` says which ones are written
by the rules: its fields tell the length of the body, and nothing in a line ends it.  Such a response is read as what it
says, and exactly to its end, so that responses sent one after the other answer requests made one after the other
(`fetchAll_responses`).
-/
namespace Firmware.Http

/-! ## Fields -/

/-- A header field as it is written: a name, a colon, and a value between blanks. -/
structure Field where
  name : List Char
  lead : List Char
  value : List Char
  trail : List Char

namespace Field

def line (f : Field) : List Char := f.name ++ ':' :: (f.lead ++ f.value ++ f.trail)

def isNamed (name : String) (f : Field) : Bool := Scan.sameName f.name name.toList

structure WellFormed (f : Field) : Prop where
  name : ':' ∉ f.name
  lead : ∀ c ∈ f.lead, Scan.isBlank c = true
  value : Scan.Bare Scan.isBlank f.value
  trail : ∀ c ∈ f.trail, Scan.isBlank c = true
  clean : ∀ c ∈ f.line, c ≠ '\r' ∧ c ≠ '\n'

theorem wellFormed_iff {f : Field} :
    f.WellFormed ↔ ':' ∉ f.name ∧ f.lead.all Scan.isBlank = true ∧ Scan.Bare Scan.isBlank f.value ∧
      f.trail.all Scan.isBlank = true ∧ f.line.all (fun c => c != '\r' && c != '\n') = true := by
  simp only [List.all_eq_true, Bool.and_eq_true, bne_iff_ne]
  exact ⟨fun h => ⟨h.name, h.lead, h.value, h.trail, h.clean⟩,
    fun ⟨hname, hlead, hvalue, htrail, hclean⟩ => ⟨hname, hlead, hvalue, htrail, hclean⟩⟩

instance : DecidablePred WellFormed := fun _ => decidable_of_iff _ wellFormed_iff.symm

def length? (f : Field) : Option UInt64 :=
  if f.isNamed "content-length" then (Decimal.signed? UInt64.size f.value).map UInt64.ofNat else none

def range? (f : Field) : Option (Bounded 32) :=
  if f.isNamed "content-range" then Bounded.ofText? 32 (String.ofList f.value) else none

/-- A field with a name that counts has a value that can be read. -/
structure Accepted (f : Field) : Prop where
  wellFormed : f.WellFormed
  length : f.isNamed "content-length" = true → f.length? ≠ none
  range : f.isNamed "content-range" = true → f.range? ≠ none

theorem not_isNamed_range {f : Field} (h : f.isNamed "content-length" = true) : f.isNamed "content-range" = false := by
  have hlength : f.name.map Char.toLower = "content-length".toList.map Char.toLower := by
    simpa [isNamed, Scan.sameName] using h
  rw [isNamed, Scan.sameName, hlength]
  decide

theorem addField_eq {f : Field} (h : f.WellFormed) (head : Head) :
    Head.addField head f.line =
      if f.isNamed "content-length" then
        match Decimal.signed? UInt64.size f.value with
        | some n => .ok { head with contentLength := some (UInt64.ofNat n) }
        | none => .error .protocol
      else if f.isNamed "content-range" then
        match Bounded.ofText? 32 (String.ofList f.value) with
        | some range => .ok { head with contentRange := some range }
        | none => .error .headerTooLarge
      else .ok head := by
  have htrim : Scan.trim (f.lead ++ f.value ++ f.trail) = f.value := by
    rw [Scan.trim_eq_strip, Scan.strip_padded h.lead h.value h.trail]
  rw [Head.addField, line, Scan.splitOnce_singleton h.name]
  dsimp only
  rw [htrim]
  rfl

theorem addField_line {f : Field} (h : f.Accepted) (head : Head) :
    Head.addField head f.line =
      .ok { head with
        contentLength := f.length?.or head.contentLength
        contentRange := f.range?.or head.contentRange } := by
  rw [addField_eq h.wellFormed]
  by_cases hlength : f.isNamed "content-length" = true
  · obtain ⟨n, hn⟩ := Option.ne_none_iff_exists'.1 (h.length hlength)
    have hrange : f.range? = none := by simp only [range?, not_isNamed_range hlength, Bool.false_eq_true, if_false]
    rw [hn, hrange, Option.some_or, Option.none_or]
    rw [length?, if_pos hlength] at hn
    obtain ⟨m, hm, rfl⟩ := Option.map_eq_some_iff.1 hn
    rw [if_pos hlength, hm]
  have hnone : f.length? = none := if_neg hlength
  rw [if_neg hlength, hnone, Option.none_or]
  by_cases hrange : f.isNamed "content-range" = true
  · obtain ⟨range, hr⟩ := Option.ne_none_iff_exists'.1 (h.range hrange)
    rw [hr, Option.some_or]
    rw [range?, if_pos hrange] at hr
    rw [if_pos hrange, hr]
  · have hnone : f.range? = none := if_neg hrange
    rw [if_neg hrange, hnone, Option.none_or]

theorem getLast?_filterMap_cons {α β : Type} (g : α → Option β) (a : α) (l : List α) (b : Option β) :
    ((a :: l).filterMap g).getLast?.or b = ((l.filterMap g).getLast?).or ((g a).or b) := by
  cases hg : g a with
  | none => rw [List.filterMap_cons_none hg, Option.none_or]
  | some x =>
    rw [List.filterMap_cons_some hg, List.getLast?_cons, Option.some_or, Option.some_or]
    cases (l.filterMap g).getLast? <;> rfl

/-- **Of each kind of field the last one counts.** -/
theorem foldlM_addField {fields : List Field} (h : ∀ f ∈ fields, f.Accepted) (head : Head) :
    (fields.map line).foldlM Head.addField head =
      .ok { head with
        contentLength := (fields.filterMap length?).getLast?.or head.contentLength
        contentRange := (fields.filterMap range?).getLast?.or head.contentRange } := by
  induction fields generalizing head with
  | nil => rfl
  | cons f fields ih =>
    obtain ⟨hf, hfields⟩ := List.forall_mem_cons.1 h
    rw [List.map_cons, List.foldlM_cons, addField_line hf, getLast?_filterMap_cons, getLast?_filterMap_cons]
    exact ih hfields _

theorem line_ne_nil (f : Field) : f.line ≠ [] := by
  simp [line]

end Field

/-! ## Heads -/

namespace Head

theorem parse_append_crlf (cs : List Char) : parse (cs ++ ['\r', '\n']) = parse cs := by
  obtain ⟨line, lines, hlines⟩ := List.exists_cons_of_ne_nil (Scan.crlfLines_ne_nil cs)
  simp only [parse, Scan.crlfLines_append, Scan.crlfLines, hlines, List.cons_append, List.filter_append]
  simp

theorem parse_dropFinalCrlf (cs : List Char) : parse (Scan.dropFinalCrlf cs) = parse cs := by
  -- on the reversed text, where `go` takes the line ends off the front
  have hgo (rs : List Char) : parse (Scan.dropFinalCrlf.go rs) = parse rs.reverse := by
    fun_induction Scan.dropFinalCrlf.go rs with
    | case1 rest ih =>
      have happend := parse_append_crlf rest.reverse
      simp only [List.reverse_cons, List.append_assoc, List.singleton_append]
      rw [ih, happend]
    | case2 => rfl
  rw [Scan.dropFinalCrlf, hgo, List.reverse_reverse]

theorem headOf_ofText (cs : List Char) : headOf (Bytes.ofText (String.ofList cs)) = parse cs := by
  rw [headOf, Bytes.text?_ofText]
  dsimp only
  rw [String.toList_ofList, parse_dropFinalCrlf]

end Head

theorem lf_not_mem_ofText {cs : List Char} (h : '\n' ∉ cs) : 0x0A ∉ Bytes.ofText (String.ofList cs) := by
  rw [Bytes.ofText_ofList]
  intro hmem
  obtain ⟨c, hc, hb⟩ := List.mem_flatMap.1 hmem
  have hcode : c.toNat = '\n'.toNat := by
    rcases octet_of_utf8EncodeChar hb with hcode | hlarge
    · exact hcode.symm
    · exact absurd hlarge (by decide)
  exact h (Char.toNat_inj.1 hcode ▸ hc)

theorem isHead_ofText {lines : List (List Char)} (h : ∀ line ∈ lines, line ≠ [] ∧ '\n' ∉ line) :
    IsHead (Bytes.ofText (String.ofList (lines.flatMap (· ++ ['\r', '\n']) ++ ['\r', '\n']))) := by
  induction lines with
  | nil =>
    rw [Bytes.ofText_ofList]
    exact .blank
  | cons line lines ih =>
    obtain ⟨⟨hne, hlf⟩, hlines⟩ := List.forall_mem_cons.1 h
    have hline : (0x0A : UInt8) ∉ Bytes.ofText (String.ofList line) ++ [0x0D] := by
      simp [lf_not_mem_ofText hlf]
    have hblank : Bytes.ofText (String.ofList line) ++ [0x0D] ≠ [0x0D] := by
      intro hblank
      have hnil : Bytes.ofText (String.ofList line) = Bytes.ofText "" := List.append_left_eq_self.1 hblank
      have htext := congrArg Bytes.text? hnil
      rw [Bytes.text?_ofText, Bytes.text?_ofText] at htext
      exact hne (by simpa using htext)
    have hrest := IsHead.line hline hblank (ih hlines)
    have hcrlf : ['\r', '\n'].flatMap String.utf8EncodeChar = [0x0D, 0x0A] := by decide
    simp only [Bytes.ofText_ofList, List.flatMap_append, List.flatMap_cons, hcrlf] at hrest ⊢
    simpa using hrest

/-! ## Status lines -/

/-- A status line as it is written: two words, the version and the status, with blanks before and between, and what
follows them. -/
structure StatusLine where
  lead : List Char
  version : List Char
  gap : List Char
  status : UInt16
  rest : List Char

namespace StatusLine

def line (s : StatusLine) : List Char :=
  s.lead ++ s.version ++ s.gap ++ (Decimal.text s.status.toNat).toList ++ s.rest

structure WellFormed (s : StatusLine) : Prop where
  lead : ∀ c ∈ s.lead, Scan.isBlank c = true
  version : "HTTP/1.".toList <+: s.version
  word : ∀ c ∈ s.version, Scan.isBlank c = false
  gap : s.gap ≠ [] ∧ ∀ c ∈ s.gap, Scan.isBlank c = true
  rest : ∀ c, s.rest.head? = some c → Scan.isBlank c = true

variable {s : StatusLine}

theorem WellFormed.words_line (h : s.WellFormed) :
    ∃ more, Scan.words s.line = s.version :: (Decimal.text s.status.toNat).toList :: more := by
  have hversion : s.version ≠ [] := by
    obtain ⟨minor, hminor⟩ := h.version
    rw [← hminor]
    simp
  have hcode : ∀ c ∈ (Decimal.text s.status.toNat).toList, Scan.isBlank c = false := fun c hc =>
    Scan.isBlank_of_isDigit (Decimal.isDigit_of_mem_text hc)
  have hne : (Decimal.text s.status.toNat).toList ≠ [] := by simp [Decimal.text]
  obtain ⟨hgap, hblanks⟩ := h.gap
  obtain ⟨blank, gap, heq⟩ := List.exists_cons_of_ne_nil hgap
  rw [heq] at hblanks
  obtain ⟨hblank, hmore⟩ := List.forall_mem_cons.1 hblanks
  obtain ⟨more, hwords⟩ := Scan.words_append hcode hne h.rest
  refine ⟨more, ?_⟩
  simp only [line, heq, List.append_assoc, List.cons_append]
  rw [Scan.words_blanks h.lead, Scan.words_cons h.word hversion hblank, Scan.words_blanks hmore, hwords]

theorem WellFormed.status?_line (h : s.WellFormed) : Head.status? s.line = some s.status := by
  obtain ⟨more, hwords⟩ := h.words_line
  have hversion : "HTTP/1.".toList.isPrefixOf s.version = true := List.isPrefixOf_iff_prefix.2 h.version
  have hcode : Decimal.signed? UInt16.size (Decimal.text s.status.toNat).toList = some s.status.toNat :=
    Decimal.signed?_of_value? (Decimal.value?_text _) s.status.toNat_lt
  rw [Head.status?, hwords]
  dsimp only
  rw [if_pos hversion, hcode, Option.map_some, UInt16.ofNat_toNat]

end StatusLine

/-! ## Responses -/

structure Response where
  version : List Char
  status : UInt16
  phrase : List Char
  fields : List Field
  range : Option (Bounded 32)
  body : Bytes

namespace Response

def statusLine (r : Response) : List Char :=
  r.version ++ ' ' :: ((Decimal.text r.status.toNat).toList ++ r.phrase)

def lines (r : Response) : List (List Char) := r.statusLine :: r.fields.map Field.line

def head (r : Response) : Bytes :=
  Bytes.ofText (String.ofList (r.lines.flatMap (· ++ ['\r', '\n']) ++ ['\r', '\n']))

def octets (r : Response) : Bytes := r.head ++ r.body

/-- A response that is written by the rules and fits into the room of a client. -/
structure WellFormed (r : Response) : Prop where
  version : "HTTP/1.".toList <+: r.version
  versionClean : ∀ c ∈ r.version, Scan.isBlank c = false
  phrase : ∀ c, r.phrase.head? = some c → c = ' '
  phraseClean : ∀ c ∈ r.phrase, c ≠ '\r' ∧ c ≠ '\n'
  fields : ∀ f ∈ r.fields, f.WellFormed
  measured : ∃ f ∈ r.fields, f.isNamed "content-length" = true
  length : ∀ f ∈ r.fields, f.isNamed "content-length" = true → Decimal.value? f.value = some r.body.length
  lengthFits : r.body.length < UInt64.size
  range : (r.fields.filter (Field.isNamed "content-range")).map Field.value = (r.range.map (·.text.toList)).toList
  headFits : r.head.length ≤ maxHeadLength

def meant (r : Response) : Head where
  status := r.status
  contentLength := some (UInt64.ofNat r.body.length)
  contentRange := r.range

variable {r : Response}

/-! ### The status line -/

theorem WellFormed.status?_statusLine (h : r.WellFormed) : Head.status? r.statusLine = some r.status := by
  have hline : r.statusLine = StatusLine.line ⟨[], r.version, [' '], r.status, r.phrase⟩ := by
    simp [statusLine, StatusLine.line]
  have hwell : StatusLine.WellFormed ⟨[], r.version, [' '], r.status, r.phrase⟩ :=
    { lead := by simp
      version := h.version
      word := h.versionClean
      gap := by simp [Scan.isBlank]
      rest := fun c hc => h.phrase c hc ▸ rfl }
  rw [hline, hwell.status?_line]

/-! ### The fields -/

theorem WellFormed.length?_eq (h : r.WellFormed) {f : Field} (hf : f ∈ r.fields)
    (hname : f.isNamed "content-length" = true) : f.length? = some (UInt64.ofNat r.body.length) := by
  rw [Field.length?, if_pos hname, Decimal.signed?_of_value? (h.length f hf hname) h.lengthFits, Option.map_some]

theorem WellFormed.lengths (h : r.WellFormed) :
    (r.fields.filterMap Field.length?).getLast? = some (UInt64.ofNat r.body.length) := by
  obtain ⟨f, hf, hname⟩ := h.measured
  have hmem := List.mem_filterMap.2 ⟨f, hf, h.length?_eq hf hname⟩
  rw [List.getLast?_eq_some_getLast (List.ne_nil_of_mem hmem)]
  obtain ⟨g, hg, hlast⟩ := List.mem_filterMap.1 (List.getLast_mem (List.ne_nil_of_mem hmem))
  have hgname : g.isNamed "content-length" = true := by
    by_cases hgname : g.isNamed "content-length" = true
    · exact hgname
    · rw [Field.length?, if_neg hgname] at hlast
      cases hlast
  rw [← hlast, h.length?_eq hg hgname]

theorem WellFormed.ranges (h : r.WellFormed) : r.fields.filterMap Field.range? = r.range.toList := by
  have hvalues : r.fields.filterMap Field.range? =
      ((r.fields.filter (Field.isNamed "content-range")).map Field.value).filterMap
        fun value => Bounded.ofText? 32 (String.ofList value) := by
    rw [List.filterMap_map, List.filterMap_filter]
    rfl
  rw [hvalues, h.range]
  cases r.range with
  | none => rfl
  | some range => simp [Bounded.ofText?_text]

theorem WellFormed.accepted (h : r.WellFormed) : ∀ f ∈ r.fields, f.Accepted := by
  intro f hf
  refine ⟨h.fields f hf, fun hname => ?_, fun hname => ?_⟩
  · rw [h.length?_eq hf hname]
    exact Option.some_ne_none _
  · have hmem : f.value ∈ (r.range.map (·.text.toList)).toList := by
      rw [← h.range]
      exact List.mem_map_of_mem (List.mem_filter.2 ⟨hf, hname⟩)
    obtain ⟨range, -, hvalue⟩ := Option.map_eq_some_iff.1 (Option.mem_toList.1 hmem)
    rw [Field.range?, if_pos hname, ← hvalue, String.ofList_toList, Bounded.ofText?_text]
    exact Option.some_ne_none _

/-! ### The head and the body -/

theorem WellFormed.clean_statusLine (h : r.WellFormed) : ∀ c ∈ r.statusLine, c ≠ '\r' ∧ c ≠ '\n' := by
  have hplain {c : Char} (hc : Scan.isBlank c = false) : c ≠ '\r' ∧ c ≠ '\n' := by
    constructor <;> rintro rfl <;> cases hc
  intro c hc
  simp only [statusLine, List.mem_append, List.mem_cons] at hc
  rcases hc with hc | rfl | hc | hc
  · exact hplain (h.versionClean c hc)
  · decide
  · exact hplain (Scan.isBlank_of_isDigit (Decimal.isDigit_of_mem_text hc))
  · exact h.phraseClean c hc

theorem WellFormed.clean_lines (h : r.WellFormed) : ∀ line ∈ r.lines, ∀ c ∈ line, c ≠ '\r' ∧ c ≠ '\n' := by
  intro line hline
  rcases List.mem_cons.1 hline with rfl | hline
  · exact h.clean_statusLine
  · obtain ⟨f, hf, rfl⟩ := List.mem_map.1 hline
    exact (h.fields f hf).clean

theorem lines_ne_nil : ∀ line ∈ r.lines, line ≠ [] := by
  intro line hline
  rcases List.mem_cons.1 hline with rfl | hline
  · simp [statusLine]
  · obtain ⟨f, -, rfl⟩ := List.mem_map.1 hline
    exact f.line_ne_nil

theorem WellFormed.parse_eq (h : r.WellFormed) :
    Head.parse (r.lines.flatMap (· ++ ['\r', '\n']) ++ ['\r', '\n']) = .ok r.meant := by
  have hcr : ∀ line ∈ r.lines, '\r' ∉ line := fun line hline hmem => (h.clean_lines line hline _ hmem).1 rfl
  have hlines : Scan.crlfLines (r.lines.flatMap (· ++ ['\r', '\n']) ++ ['\r', '\n']) = r.lines ++ [[], []] :=
    Scan.crlfLines_flatMap hcr ['\r', '\n']
  have hfilter : (r.fields.map Field.line ++ [[], []]).filter (fun line => !line.isEmpty) =
      r.fields.map Field.line := by
    rw [List.filter_append, List.filter_eq_self.2]
    · simp
    · intro line hline
      simpa using lines_ne_nil line (List.mem_cons_of_mem _ hline)
  rw [Head.parse, hlines, lines, List.cons_append]
  dsimp only
  rw [h.status?_statusLine]
  dsimp only
  rw [hfilter, Field.foldlM_addField h.accepted, h.lengths, h.ranges]
  cases hrange : r.range <;> simp [meant, hrange]

theorem WellFormed.isHead (h : r.WellFormed) : IsHead r.head :=
  isHead_ofText fun line hline => ⟨lines_ne_nil line hline, fun hmem => (h.clean_lines line hline _ hmem).2 rfl⟩

/-- **The head of a response says what the response means.** -/
theorem WellFormed.headOf_head (h : r.WellFormed) : headOf r.head = .ok r.meant := by
  rw [head, Head.headOf_ofText, h.parse_eq]

/-- What a call leaves that is answered by the response: the body of a success in the front of the buffer, the body of
a failure nowhere. -/
def into (r : Response) (buffer : Bytes) : Fetched :=
  if 400 ≤ r.status then ⟨.ok { status := r.status, contentRange := r.range, bodySize := 0 }, buffer⟩
  else
    ⟨.ok { status := r.status, contentRange := r.range, bodySize := UInt64.ofNat r.body.length },
      r.body ++ buffer.drop r.body.length⟩

/-- **A response is read to its end, and not an octet more.** -/
theorem WellFormed.readResponse_octets (h : r.WellFormed) {buffer : Bytes}
    (hfits : 400 ≤ r.status ∨ r.body.length ≤ buffer.length) (rest : Bytes) :
    Client.readResponse buffer (r.octets ++ rest) = (r.into buffer, rest) := by
  have hsize : (UInt64.ofNat r.body.length).toNat = r.body.length := UInt64.toNat_ofNat_of_lt' h.lengthFits
  rw [octets, List.append_assoc, Client.readResponse, readHead_of_isHead h.isHead h.headFits, h.headOf_head]
  simp only [Client.readBody, meant, into, hsize, List.drop_left, List.take_left]
  by_cases hstatus : 400 ≤ r.status
  · rw [if_pos hstatus, if_pos hstatus]
  have hroom : r.body.length ≤ buffer.length := hfits.resolve_left hstatus
  have hcomplete : ¬ (r.body ++ rest).length < r.body.length := by
    rw [List.length_append]
    omega
  rw [if_neg hstatus, if_neg hstatus, if_neg (Nat.not_lt.2 hroom), if_neg hcomplete, overlay,
    List.take_of_length_le hroom]

theorem into_answer_ne (r : Response) (buffer : Bytes) : (r.into buffer).answer ≠ .error .network := by
  unfold into
  split <;> simp

/-! ### Two responses -/

theorem partRange_fits : "bytes 0-3/8".utf8ByteSize ≤ 32 := by decide

/-- Four octets of an image that look like the end of a head. -/
def part : Response where
  version := "HTTP/1.1".toList
  status := 206
  phrase := " Partial Content".toList
  fields :=
    [⟨"content-range".toList, [' '], "bytes 0-3/8".toList, []⟩, ⟨"CONTENT-LENGTH".toList, [], ['0', '4'], ['\t']⟩]
  range := some ⟨"bytes 0-3/8", partRange_fits⟩
  body := [0x0D, 0x0A, 0x0D, 0x0A]

def missing : Response where
  version := "HTTP/1.0".toList
  status := 404
  phrase := []
  fields := [⟨"Server".toList, [' '], "a:b".toList, []⟩, ⟨"Content-Length".toList, [' '], ['2'], []⟩]
  range := none
  body := [0xFF, 0xFE]

theorem part_wellFormed : part.WellFormed where
  version := by decide
  versionClean := Scan.forall_of_all (by decide)
  phrase := by
    rintro c ⟨⟩
    rfl
  phraseClean := Scan.forall_of_all (by decide)
  fields := by decide
  measured := ⟨_, List.mem_cons_of_mem _ List.mem_cons_self, by decide⟩
  length := by decide
  lengthFits := by decide
  range := by decide
  headFits := by decide +kernel

theorem missing_wellFormed : missing.WellFormed where
  version := by decide
  versionClean := Scan.forall_of_all (by decide)
  phrase := by
    rintro c ⟨⟩
  phraseClean := Scan.forall_of_all (by decide)
  fields := by decide
  measured := ⟨_, List.mem_cons_of_mem _ List.mem_cons_self, by decide⟩
  length := by decide
  lengthFits := by decide
  range := by decide
  headFits := by decide +kernel

end Response

/-! ## Keeping a connection -/

namespace Client

variable {c : Client} {session : Session}

theorem fetch_response {r : Response} (h : r.WellFormed) {ask : Ask}
    (hfits : 400 ≤ r.status ∨ r.body.length ≤ ask.buffer.length) {rest : Bytes} (hsession : c.session = some session)
    (hunread : session.unread = r.octets ++ rest) :
    (c.fetch ask.resource ask.range ask.buffer).1 = r.into ask.buffer ∧
      (c.fetch ask.resource ask.range ask.buffer).2.session = some { session with unread := rest } := by
  have hread := h.readResponse_octets hfits rest
  rw [← hunread] at hread
  have hkept : (readResponse ask.buffer session.unread).1.answer ≠ .error .network := by
    rw [hread]
    exact r.into_answer_ne ask.buffer
  rw [answered_fetch hsession, session_fetch_kept hsession ask hkept, hread]
  exact ⟨rfl, rfl⟩

/-- **Responses sent one after the other answer the calls made one after the other.**  Each call leaves what its
response says, whatever octets the bodies hold, and the last one leaves nothing unread. -/
theorem fetchAll_responses {exchanges : List (Response × Ask)}
    (h : ∀ exchange ∈ exchanges, exchange.1.WellFormed ∧
      (400 ≤ exchange.1.status ∨ exchange.1.body.length ≤ exchange.2.buffer.length))
    (hsession : c.session = some session) (hunread : session.unread = exchanges.flatMap (·.1.octets)) :
    (c.fetchAll (exchanges.map Prod.snd)).1 = exchanges.map (fun (response, ask) => response.into ask.buffer) ∧
      (c.fetchAll (exchanges.map Prod.snd)).2.session = some { session with unread := [] } := by
  induction exchanges generalizing c session with
  | nil =>
    obtain ⟨host, unread⟩ := session
    obtain rfl : unread = [] := hunread
    exact ⟨rfl, hsession⟩
  | cons exchange exchanges ih =>
    obtain ⟨response, ask⟩ := exchange
    obtain ⟨⟨hwell, hfits⟩, hmore⟩ := List.forall_mem_cons.1 h
    obtain ⟨hfirst, hkept⟩ := fetch_response hwell hfits hsession hunread
    obtain ⟨hanswers, hleft⟩ := ih hmore hkept rfl
    simp only [List.map_cons, fetchAll, hfirst, hanswers, hleft]
    exact ⟨trivial, trivial⟩

def served : Client :=
  { session := some (.waiting (Response.part.octets ++ Response.missing.octets)) }

def exchanges : List (Response × Ask) :=
  [(.part, ⟨"/fw.bin", ⟨0, 3⟩, [1, 2, 3, 4, 5]⟩), (.missing, ⟨"/fw.sig", .firstOctet, []⟩)]

theorem served_reads_exchanges :
    (∀ exchange ∈ exchanges, exchange.1.WellFormed ∧
        (400 ≤ exchange.1.status ∨ exchange.1.body.length ≤ exchange.2.buffer.length)) ∧
      served.session = some (.waiting (Response.part.octets ++ Response.missing.octets)) ∧
      Response.part.octets ++ Response.missing.octets = exchanges.flatMap (·.1.octets) ∧
      (served.fetchAll (exchanges.map Prod.snd)).1 =
        [⟨.ok ⟨206, some ⟨"bytes 0-3/8", Response.partRange_fits⟩, 4⟩, [0x0D, 0x0A, 0x0D, 0x0A, 5]⟩,
          ⟨.ok ⟨404, none, 0⟩, []⟩] ∧
      (served.fetchAll (exchanges.map Prod.snd)).2.session = some (.waiting []) := by
  have hexchanges : ∀ exchange ∈ exchanges, exchange.1.WellFormed ∧
      (400 ≤ exchange.1.status ∨ exchange.1.body.length ≤ exchange.2.buffer.length) := by
    intro exchange hmem
    rcases List.mem_cons.1 hmem with rfl | hmem
    · exact ⟨Response.part_wellFormed, .inr (by decide)⟩
    · obtain rfl := List.mem_singleton.1 hmem
      exact ⟨Response.missing_wellFormed, .inl (by decide)⟩
  have hstream : Response.part.octets ++ Response.missing.octets = exchanges.flatMap (·.1.octets) := by
    simp [exchanges]
  obtain ⟨hanswers, hleft⟩ := fetchAll_responses (c := served) hexchanges rfl hstream
  exact ⟨hexchanges, rfl, hstream, hanswers, hleft⟩

end Client
end Firmware.Http
