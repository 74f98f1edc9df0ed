import Firmware.Http.Client
import Firmware.Image.Url
import Firmware.Proofs.Scanning
import Firmware.Proofs.Size
import Firmware.Proofs.Url
/-!
# Request — what a server reads in a request

The host and the resource of a URL stand in a request as they came.  `RequestHead.read?` is the server's side: lines
that end in CR LF, a request line of three parts with one space between them, fields with a colon after the name, a
blank line.  A request reads back as what was meant exactly if the URL brings none of the separators along
(`reads_as_asked_iff`); the splitting of URLs does not look for them (`forged_reads_otherwise`).
-/
namespace Firmware.Http

structure RequestHead where
  method : List Char
  target : List Char
  version : List Char
  fields : List (List Char × List Char)
deriving DecidableEq

namespace RequestHead

/-! ## Reading -/

def isClean (cs : List Char) : Bool := cs.all fun c => c != '\r' && c != '\n'

def isPart (cs : List Char) : Bool := !cs.isEmpty && cs.all fun c => c != '\r' && c != '\n' && c != ' '

def isName (cs : List Char) : Bool := isPart cs && cs.all fun c => c != ':' && c != '\t'

/-- What may surround the value of a header field and does not belong to it. -/
def isPadding (c : Char) : Bool := c == ' ' || c == '\t'

theorem isClean_iff {cs : List Char} : isClean cs = true ↔ ∀ c ∈ cs, c ≠ '\r' ∧ c ≠ '\n' := by
  simp [isClean]

theorem isPart_iff {cs : List Char} : isPart cs = true ↔ cs ≠ [] ∧ ∀ c ∈ cs, c ≠ '\r' ∧ c ≠ '\n' ∧ c ≠ ' ' := by
  simp [isPart, and_assoc]

theorem isName_iff {cs : List Char} : isName cs = true ↔ isPart cs = true ∧ ∀ c ∈ cs, c ≠ ':' ∧ c ≠ '\t' := by
  simp [isName]

def requestLine? (line : List Char) : Option (List Char × List Char × List Char) :=
  match Scan.splitOnce [' '] line with
  | none => none
  | some (method, rest) =>
    match Scan.splitOnce [' '] rest with
    | none => none
    | some (target, version) =>
      if isPart method && isPart target && isPart version then some (method, target, version) else none

def field? (line : List Char) : Option (List Char × List Char) :=
  match Scan.splitOnce [':'] line with
  | none => none
  | some (name, value) =>
    if isName name && isClean value then some (name, Scan.strip isPadding value) else none

/-- The fields of the lines up to a blank one that nothing follows. -/
def fields? : List (List Char) → Option (List (List Char × List Char))
  | [[], []] => some []
  | line :: lines =>
    match field? line, fields? lines with
    | some field, some fields => some (field :: fields)
    | _, _ => none
  | [] => none

def read? (text : List Char) : Option RequestHead :=
  match Scan.crlfLines text with
  | [] => none
  | line :: lines =>
    match requestLine? line, fields? lines with
    | some (method, target, version), some fields => some { method, target, version, fields }
    | _, _ => none

/-! ## Writing -/

def lines (r : RequestHead) : List (List Char) :=
  (r.method ++ ' ' :: r.target ++ ' ' :: r.version) :: r.fields.map fun (name, value) => name ++ ':' :: ' ' :: value

def text (r : RequestHead) : List Char := r.lines.flatMap (· ++ ['\r', '\n']) ++ ['\r', '\n']

/-- The parts of a request hold nothing that separates parts. -/
structure WellFormed (r : RequestHead) : Prop where
  method : isPart r.method = true
  target : isPart r.target = true
  version : isPart r.version = true
  fields : ∀ field ∈ r.fields, isName field.1 = true ∧ isClean field.2 = true ∧ Scan.Bare isPadding field.2

theorem requestLine?_wellFormed {line method target version : List Char}
    (h : requestLine? line = some (method, target, version)) :
    isPart method = true ∧ isPart target = true ∧ isPart version = true := by
  unfold requestLine? at h
  split at h
  · cases h
  split at h
  · cases h
  split at h
  · rename_i hparts
    cases h
    simpa [Bool.and_eq_true, and_assoc] using hparts
  · cases h

theorem field?_wellFormed {line name value : List Char} (h : field? line = some (name, value)) :
    isName name = true ∧ isClean value = true ∧ Scan.Bare isPadding value := by
  unfold field? at h
  split at h
  · cases h
  split at h
  · rename_i name value _ hclean
    obtain ⟨hname, hvalue⟩ := Bool.and_eq_true_iff.1 hclean
    cases h
    refine ⟨hname, ?_, Scan.bare_strip _ _⟩
    rw [isClean, List.all_eq_true] at hvalue ⊢
    exact fun c hc => hvalue c (Scan.mem_of_mem_strip hc)
  · cases h

theorem fields?_wellFormed {lines : List (List Char)} {fields : List (List Char × List Char)}
    (h : fields? lines = some fields) :
    ∀ field ∈ fields, isName field.1 = true ∧ isClean field.2 = true ∧ Scan.Bare isPadding field.2 := by
  fun_induction fields? lines generalizing fields with
  | case1 =>
    cases h
    simp
  | case2 line lines _ field fields' hfields hfield ih =>
    cases h
    exact List.forall_mem_cons.2 ⟨field?_wellFormed hfield, ih hfields⟩
  | case3 | case4 => cases h

/-- **Whatever is read is well formed.** -/
theorem wellFormed_of_read? {text : List Char} {r : RequestHead} (h : read? text = some r) : r.WellFormed := by
  unfold read? at h
  split at h
  · cases h
  split at h
  · rename_i hline hfields
    cases h
    obtain ⟨hmethod, htarget, hversion⟩ := requestLine?_wellFormed hline
    exact ⟨hmethod, htarget, hversion, fields?_wellFormed hfields⟩
  · cases h

theorem requestLine?_of_isPart {method target version : List Char} (hmethod : isPart method = true)
    (htarget : isPart target = true) (hversion : isPart version = true) :
    requestLine? (method ++ ' ' :: target ++ ' ' :: version) = some (method, target, version) := by
  have hspace {cs : List Char} (hcs : isPart cs = true) : ' ' ∉ cs := fun hmem =>
    ((isPart_iff.1 hcs).2 _ hmem).2.2 rfl
  have hsplit := Scan.splitOnce_singleton (hspace hmethod) (target ++ ' ' :: version)
  rw [List.append_assoc, List.cons_append, requestLine?, hsplit]
  simp only [Scan.splitOnce_singleton (hspace htarget) version, hmethod, htarget, hversion, Bool.and_self, if_true]

theorem field?_of_isName {name value : List Char} (hname : isName name = true) (hclean : isClean value = true)
    (hbare : Scan.Bare isPadding value) : field? (name ++ ':' :: ' ' :: value) = some (name, value) := by
  have hcolon : ':' ∉ name := fun hmem => ((isName_iff.1 hname).2 _ hmem).1 rfl
  have hpadded : isClean (' ' :: value) = true := by simpa [isClean] using hclean
  have hstrip : Scan.strip isPadding ([' '] ++ value ++ []) = value :=
    Scan.strip_padded (by simp [isPadding]) hbare (by simp)
  rw [List.append_nil, List.singleton_append] at hstrip
  rw [field?, Scan.splitOnce_singleton hcolon]
  simp only [hname, hpadded, hstrip, Bool.and_self, if_true]

theorem fields?_of_wellFormed {fields : List (List Char × List Char)}
    (h : ∀ field ∈ fields, isName field.1 = true ∧ isClean field.2 = true ∧ Scan.Bare isPadding field.2) :
    fields? ((fields.map fun (name, value) => name ++ ':' :: ' ' :: value) ++ [[], []]) = some fields := by
  induction fields with
  | nil => rfl
  | cons field fields ih =>
    obtain ⟨⟨hname, hclean, hbare⟩, hfields⟩ := List.forall_mem_cons.1 h
    rw [List.map_cons, List.cons_append, fields?, field?_of_isName hname hclean hbare, ih hfields]
    simp

theorem WellFormed.lines_clean {r : RequestHead} (h : r.WellFormed) : ∀ line ∈ r.lines, '\r' ∉ line := by
  have hpart {cs : List Char} (hcs : isPart cs = true) : '\r' ∉ cs := fun hmem => ((isPart_iff.1 hcs).2 _ hmem).1 rfl
  intro line hline
  rcases List.mem_cons.1 hline with rfl | hline
  · simp [hpart h.method, hpart h.target, hpart h.version]
  · obtain ⟨⟨name, value⟩, hfield, rfl⟩ := List.mem_map.1 hline
    obtain ⟨hname, hvalue, -⟩ := h.fields _ hfield
    have hname := hpart (isName_iff.1 hname).1
    have hvalue : '\r' ∉ value := fun hmem => (isClean_iff.1 hvalue _ hmem).1 rfl
    simp [hname, hvalue]

/-- **A well-formed request is read as it was meant.** -/
theorem read?_text {r : RequestHead} (h : r.WellFormed) : read? r.text = some r := by
  have hlines : Scan.crlfLines r.text = r.lines ++ [[], []] := Scan.crlfLines_flatMap h.lines_clean ['\r', '\n']
  rw [read?, hlines, lines, List.cons_append]
  simp only [requestLine?_of_isPart h.method h.target h.version, fields?_of_wellFormed h.fields]

end RequestHead

/-! ## Requests for a range -/

def rangeValue (range : ByteRange) : List Char :=
  ['b', 'y', 't', 'e', 's', '='] ++ (Decimal.text range.first.toNat).toList ++
    '-' :: (Decimal.text range.last.toNat).toList

/-- What is asked of a host: a range of a resource, and to keep the connection. -/
def asked (u : ImageUrl) (range : ByteRange) : RequestHead where
  method := "GET".toList
  target := u.resource.text.toList
  version := "HTTP/1.1".toList
  fields :=
    [("Host".toList, u.host.text.toList),
      ("Range".toList, rangeValue range),
      ("Connection".toList, "keep-alive".toList)]

theorem requestText_toList (u : ImageUrl) (range : ByteRange) :
    (requestText u.host.text u.resource.text range).toList = (asked u range).text := by
  simp [requestText, asked, rangeValue, RequestHead.text, RequestHead.lines, ByteRange.header_eq]

/-- A URL that brings nothing along that separates the parts of a request. -/
structure Plain (u : ImageUrl) : Prop where
  resource : ∀ c ∈ u.resource.text.toList, c ≠ '\r' ∧ c ≠ '\n' ∧ c ≠ ' '
  host : ∀ c ∈ u.host.text.toList, c ≠ '\r' ∧ c ≠ '\n'
  hostEnds : Scan.Bare RequestHead.isPadding u.host.text.toList

theorem clear_rangeValue (range : ByteRange) :
    ∀ c ∈ rangeValue range, c ≠ '\r' ∧ c ≠ '\n' ∧ RequestHead.isPadding c = false := by
  have hdigits (n : Nat) : ∀ c ∈ (Decimal.text n).toList, c ≠ '\r' ∧ c ≠ '\n' ∧ RequestHead.isPadding c = false := by
    intro c hc
    have hdigit := Decimal.isDigit_of_mem_text hc
    refine ⟨?_, ?_, ?_⟩
    · rintro rfl
      cases hdigit
    · rintro rfl
      cases hdigit
    · simp only [RequestHead.isPadding, Bool.or_eq_false_iff, beq_eq_false_iff_ne]
      constructor <;> rintro rfl <;> cases hdigit
  have hname : ∀ c ∈ ['b', 'y', 't', 'e', 's', '='], c ≠ '\r' ∧ c ≠ '\n' ∧ RequestHead.isPadding c = false := by
    simp [RequestHead.isPadding]
  intro c hc
  rcases List.mem_append.1 hc with hc | hc
  · rcases List.mem_append.1 hc with hc | hc
    · exact hname c hc
    · exact hdigits _ c hc
  · rcases List.mem_cons.1 hc with rfl | hc
    · decide
    · exact hdigits _ c hc

theorem asked_wellFormed_iff {u : ImageUrl} (hresource : u.resource.text.toList ≠ []) (range : ByteRange) :
    (asked u range).WellFormed ↔ Plain u := by
  constructor
  · intro h
    obtain ⟨-, hhost, hends⟩ := h.fields ("Host".toList, u.host.text.toList) (by simp [asked])
    exact ⟨(RequestHead.isPart_iff.1 h.target).2, RequestHead.isClean_iff.1 hhost, hends⟩
  · intro h
    have hmethod : RequestHead.isPart "GET".toList = true := by decide
    have hversion : RequestHead.isPart "HTTP/1.1".toList = true := by decide
    have hclear := clear_rangeValue range
    refine ⟨hmethod, RequestHead.isPart_iff.2 ⟨hresource, h.resource⟩, hversion, ?_⟩
    simp only [asked, List.forall_mem_cons]
    refine ⟨⟨by decide, RequestHead.isClean_iff.2 h.host, h.hostEnds⟩, ⟨by decide, ?_, ?_⟩,
      ⟨by decide, by decide, by decide⟩, by simp⟩
    · exact RequestHead.isClean_iff.2 fun c hc => ⟨(hclear c hc).1, (hclear c hc).2.1⟩
    · exact Scan.bare_of_forall fun c hc => (hclear c hc).2.2

theorem resource_ne_nil {url : String} {u : ImageUrl} (h : ImageUrl.parse url = .ok u) :
    u.resource.text.toList ≠ [] := by
  obtain ⟨-, scheme, hsplits⟩ := ImageUrl.splits_of_parse h
  obtain ⟨path, hresource⟩ := hsplits.rooted
  rw [hresource, String.toList_append]
  exact List.cons_ne_nil _ _

theorem sent_fetch {c : Client} {session : Session} {before : String} {older : List String}
    (hsession : c.session = some session) (hsent : c.sent = before :: older) (resource : String) (range : ByteRange)
    (buffer : Bytes) :
    (c.fetch resource range buffer).2.sent = (before ++ requestText session.host.text resource range) :: older := by
  simp only [Client.fetch, hsession, hsent]

/-- **A request for a range reads back as what was asked exactly if the URL is plain.**  Nothing between the URL and the
connection keeps a separator out: what the URL brings along is sent as it is. -/
theorem reads_as_asked_iff {url : String} {u : ImageUrl} (hparse : ImageUrl.parse url = .ok u) {c : Client}
    {session : Session} (hsession : c.session = some session) (hhost : session.host = u.host) {before : String}
    {older : List String} (hsent : c.sent = before :: older) (range : ByteRange) (buffer : Bytes) :
    ∃ text, (c.fetch u.resource.text range buffer).2.sent = (before ++ text) :: older ∧
      (RequestHead.read? text.toList = some (asked u range) ↔ Plain u) := by
  refine ⟨requestText u.host.text u.resource.text range, ?_, ?_⟩
  · rw [sent_fetch hsession hsent, hhost]
  · rw [requestText_toList, ← asked_wellFormed_iff (resource_ne_nil hparse) range]
    exact ⟨RequestHead.wellFormed_of_read?, RequestHead.read?_text⟩

theorem shortHost_fits : "h".utf8ByteSize ≤ 128 := by decide

theorem signedResource_fits : "/fw.bin?sig=a%20b".utf8ByteSize ≤ 2048 := by decide

def plainUrl : ImageUrl := ⟨⟨"h", shortHost_fits⟩, ⟨"/fw.bin?sig=a%20b", signedResource_fits⟩⟩

def kept : Client := { session := some { host := plainUrl.host, unread := [] }, sent := ["GET / HTTP/1.1\r\n\r\n"] }

theorem plain_reads_as_asked :
    ImageUrl.parse "http://h/fw.bin?sig=a%20b" = .ok plainUrl ∧
      kept.session = some { host := plainUrl.host, unread := [] } ∧ kept.sent = ["GET / HTTP/1.1\r\n\r\n"] ∧
      ∃ text, (kept.fetch plainUrl.resource.text ⟨0, 4095⟩ []).2.sent = ["GET / HTTP/1.1\r\n\r\n" ++ text] ∧
        RequestHead.read? text.toList = some (asked plainUrl ⟨0, 4095⟩) := by
  have hparse : ImageUrl.parse "http://h/fw.bin?sig=a%20b" = .ok plainUrl := rfl
  have hplain : Plain plainUrl := ⟨by simp [plainUrl], by simp [plainUrl], by decide⟩
  obtain ⟨text, hsent, hread⟩ := reads_as_asked_iff hparse (c := kept) rfl rfl rfl ⟨0, 4095⟩ []
  exact ⟨hparse, rfl, rfl, text, hsent, hread.2 hplain⟩

/-- A URL whose resource goes on in a header field of its own. -/
def forgedUrl : String := "http://h/a HTTP/1.1\r\nX-Forged: 1\r\nY:"

theorem forgedResource_fits : "/a HTTP/1.1\r\nX-Forged: 1\r\nY:".utf8ByteSize ≤ 2048 := by decide

def forged : ImageUrl := ⟨⟨"h", shortHost_fits⟩, ⟨"/a HTTP/1.1\r\nX-Forged: 1\r\nY:", forgedResource_fits⟩⟩

def forgedHead : RequestHead where
  method := "GET".toList
  target := "/a".toList
  version := "HTTP/1.1".toList
  fields := ("X-Forged".toList, ['1']) :: ("Y".toList, "HTTP/1.1".toList) :: (asked forged .firstOctet).fields

theorem read?_forged :
    RequestHead.read? (requestText forged.host.text forged.resource.text .firstOctet).toList = some forgedHead := by
  decide +kernel

/-- An accepted URL can add header fields and change the target. -/
theorem forged_reads_otherwise :
    ¬ ∀ (url : String) (u : ImageUrl) (range : ByteRange), ImageUrl.parse url = .ok u → range.first ≤ range.last →
      RequestHead.read? (requestText u.host.text u.resource.text range).toList = some (asked u range) := fun h => by
  have hparse : ImageUrl.parse forgedUrl = .ok forged := rfl
  have hasked := h forgedUrl forged .firstOctet hparse (by decide)
  rw [read?_forged] at hasked
  have htarget : "/a".toList = forged.resource.text.toList := congrArg RequestHead.target (Option.some.inj hasked)
  exact absurd htarget (by decide)

end Firmware.Http
