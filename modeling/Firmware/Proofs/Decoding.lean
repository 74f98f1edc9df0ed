import Firmware.Proofs.Digits
import Firmware.Proofs.Document
/-!
# Decoding — what is decoded is what was written

An envelope may be written in many ways: its members in any order and among others, nothing said by `null` or by no
member, each character of a text escaped or not, the digits of a digest in either case.  However it is written, it is
read as that envelope (`Envelope.parse?_of_writes`).  From there `decodes_written` says what becomes of a request: it
is decoded with its texts as they are if each fits its room, and else the first field that does not fit is named.
-/
namespace Firmware

theorem RequestKind.code_lt (kind : RequestKind) : kind.code < UInt16.size := by cases kind <;> decide

namespace Inbound

open Json (Document Says Value Content Token)

/-! ## Envelopes -/

inductive Download.SaidBy (download : Download) : Document → Prop where
  | object {members : List (String × Document)} (distinct : (members.map Prod.fst).Nodup)
    (url : Says members "url" .text download.url) (fileName : Says members "fileName" .text download.fileName)
    (sha256 : Says members "sha256" .text download.sha256) : SaidBy download (.object members)

/-- The members of an object that says what the envelope says, in any order and with others among them. -/
structure Envelope.SaidBy (e : Envelope) (members : List (String × Document)) : Prop where
  distinct : (members.map Prod.fst).Nodup
  ct : Says members "ct" .number e.ct
  cmd : Says members "cmd" .text e.cmd
  ack : Says members "ack" .text e.ack
  sw : Says members "sw" .text e.sw
  urls : (members.lookup "urls" = none ∧ e.urls = []) ∨
    ∃ items, members.lookup "urls" = some (.array items) ∧ List.Forall₂ Download.SaidBy e.urls items

/-- The octets are a JSON text that says what the envelope says. -/
def Envelope.Writes (e : Envelope) (payload : Bytes) : Prop :=
  ∃ members, e.SaidBy members ∧ (Document.object members).Writes payload

theorem Download.ofJson?_of_means {download : Download} {d : Document} {v : Value} (hs : download.SaidBy d)
    (hv : d.Means v) : ofJson? v = some download := by
  obtain ⟨distinct, url, fileName, sha256⟩ := hs
  obtain ⟨fields, hfields, hlookup⟩ := Value.fields?_of_means hv distinct ["url", "fileName", "sha256"] 0
  have hurl := Json.optional?_text url (hlookup "url" (by decide))
  have hname := Json.optional?_text fileName (hlookup "fileName" (by decide))
  have hsha := Json.optional?_text sha256 (hlookup "sha256" (by decide))
  simp [ofJson?, hfields, textField?, hurl, hname, hsha]

theorem mapM_ofJson?_of_means {downloads : List Download} {items : List Document} {vs : List Value}
    (hs : List.Forall₂ Download.SaidBy downloads items) (hv : Json.ItemsMean items vs) :
    vs.mapM Download.ofJson? = some downloads := by
  induction hs generalizing vs with
  | nil =>
    cases hv
    rfl
  | cons hd _ ih =>
    cases hv with
    | cons hv hvs => simp [List.mapM_cons, Download.ofJson?_of_means hd hv, ih hvs]

/-- **However an envelope is written, it is read as that envelope.** -/
theorem Envelope.parse?_of_writes {e : Envelope} {payload : Bytes} (hct : ∀ n ∈ e.ct, n < UInt16.size)
    (h : e.Writes payload) : parse? payload = some e := by
  obtain ⟨members, hs, hw⟩ := h
  obtain ⟨v, hparse, hmeans⟩ := hw.parse?
  obtain ⟨fields, hfields, hlookup⟩ := Value.fields?_of_means hmeans hs.distinct ["ct", "cmd", "ack", "sw", "urls"] 1
  have ht := Json.optional?_number hs.ct (hlookup "ct" (by decide)) hct
  have hcmd := Json.optional?_text hs.cmd (hlookup "cmd" (by decide))
  have hack := Json.optional?_text hs.ack (hlookup "ack" (by decide))
  have hsw := Json.optional?_text hs.sw (hlookup "sw" (by decide))
  have hurls : downloads? (fields.lookup "urls") = some e.urls := by
    have hrel := hlookup "urls" (by decide)
    generalize fields.lookup "urls" = w at hrel ⊢
    rcases hs.urls with ⟨hnone, hempty⟩ | ⟨items, hsome, hitems⟩
    · rw [hnone] at hrel
      cases hrel
      rw [hempty]
      rfl
    · rw [hsome] at hrel
      cases hrel with
      | some hv =>
        cases hv with
        | array hvs => simp [downloads?, Value.items?, mapM_ofJson?_of_means hitems hvs]
  simp [parse?, hparse, ofJson?, hfields, ht, textField?, hcmd, hack, hsw, hurls]

/-! ## Rooms -/

theorem fit_text {limit : Nat} (name : String) (t : Bounded limit) : fit limit name t.text = .ok t := by
  simp [fit, Bounded.ofText?_text]

theorem fit_of_lt {limit : Nat} (name : String) {s : String} (h : limit < s.utf8ByteSize) :
    fit limit name s = .error (.fieldTooLong name) := by
  simp [fit, Bounded.ofText?_eq_none.2 h]

theorem exists_bounded_or_lt (limit : Nat) (s : String) :
    (∃ t : Bounded limit, t.text = s) ∨ limit < s.utf8ByteSize := by
  rcases Nat.lt_or_ge limit s.utf8ByteSize with h | h
  · exact .inr h
  · exact .inl ⟨⟨s, h⟩, rfl⟩

/-! ## Requests -/

/-- What the cloud asks for, before any room is looked at. -/
inductive Request where
  | command (text : String)
  | offer (url fileName version : String) (digest : Option ImageDigest)

namespace Request

def kind : Request → RequestKind
  | .command _ => .command
  | .offer .. => .update

/-- The envelopes of a request with the id `ack`.  An offer is about the first download, and a missing file name is
empty; what the type of the request does not ask for may be anything. -/
inductive EnvelopeOf (ack : Option String) : Request → Envelope → Prop where
  | command {text : String} {e : Envelope} (ct : e.ct = some 0) (id : e.ack = ack) (cmd : e.cmd = some text) :
    EnvelopeOf ack (.command text) e
  | offer {url fileName version : String} {digest : Option ImageDigest} {e : Envelope} {download : Download}
    (ct : e.ct = some 1) (id : e.ack = ack) (sw : e.sw = some version) (first : e.urls.head? = some download)
    (address : download.url = some url)
    (name : download.fileName = some fileName ∨ download.fileName = none ∧ fileName = "")
    (hex : Option.Rel (fun digest hex => Hex.Spells digest.octets hex.toList) digest download.sha256) :
    EnvelopeOf ack (.offer url fileName version digest) e

/-- The first field that has not the room it needs. -/
def misfit? : Request → Option String
  | .command text => if 128 < text.utf8ByteSize then some "cmd" else none
  | .offer url fileName version _ =>
    if 2000 < url.utf8ByteSize then some "url"
    else if 128 < fileName.utf8ByteSize then some "fileName"
    else if 32 < version.utf8ByteSize then some "sw"
    else none

inductive DecodesTo (ack : Option String) : Request → Except MessageError Inbound → Prop where
  | overlongId {request : Request} {id : String} (given : ack = some id) (long : 64 < id.utf8ByteSize) :
    DecodesTo ack request (.error (.fieldTooLong "ack"))
  | malformed {request : Request} {id : AckId} {field : String} (given : ack = some id.text)
    (misfit : request.misfit? = some field) :
    DecodesTo ack request (.ok (.malformed request.kind id (.fieldTooLong field)))
  | refused {request : Request} {field : String} (given : ack = none) (misfit : request.misfit? = some field) :
    DecodesTo ack request (.error (.fieldTooLong field))
  | command {text : Bounded 128} {id : Option AckId} (given : ack = id.map Bounded.text) :
    DecodesTo ack (.command text.text) (.ok (.command (Command.ofText text.text) text id))
  | offer {o : Offer} (given : ack = o.ackId.map Bounded.text) :
    DecodesTo ack (.offer o.url.text o.fileName.text o.version.text o.digest) (.ok (.offer o))

theorem decodesTo_settle_error {ack : Option String} {request : Request} {id : Option AckId} {field : String}
    (given : ack = id.map Bounded.text) (misfit : request.misfit? = some field) :
    request.DecodesTo ack (settle request.kind id (.error (.fieldTooLong field))) := by
  cases id with
  | none => exact .refused given misfit
  | some id => exact .malformed given misfit

end Request

theorem Envelope.ackId_of_ne {e : Envelope} {id : String} (hack : e.ack = some id) (hne : id ≠ "") :
    e.ackId = (fit 64 "ack" id).map some := by
  have hempty : id.isEmpty = false := by simpa [Bool.eq_false_iff, String.isEmpty_iff] using hne
  simp [ackId, hack, hempty]

theorem Envelope.ackId_text {e : Envelope} {id : AckId} (hack : e.ack = some id.text) (hne : id.text ≠ "") :
    e.ackId = .ok (some id) := by
  rw [ackId_of_ne hack hne, fit_text]
  rfl

theorem Envelope.ackId_cases {e : Envelope} {ack : Option String} (he : e.ack = ack) (hne : ack ≠ some "") :
    (∃ id : Option AckId, ack = id.map Bounded.text ∧ e.ackId = .ok id) ∨
      ∃ id, ack = some id ∧ 64 < id.utf8ByteSize ∧ e.ackId = .error (.fieldTooLong "ack") := by
  cases ack with
  | none => exact .inl ⟨none, rfl, by simp [ackId, he]⟩
  | some id =>
    have hid : id ≠ "" := fun h => hne (congrArg some h)
    rcases exists_bounded_or_lt 64 id with ⟨t, rfl⟩ | hlong
    · exact .inl ⟨some t, rfl, ackId_text he hid⟩
    · refine .inr ⟨id, rfl, hlong, ?_⟩
      rw [ackId_of_ne he hid, fit_of_lt _ hlong]
      rfl

def Envelope.message (e : Envelope) (kind : RequestKind) (id : Option AckId) : Except MessageError Inbound :=
  match kind with
  | .command => e.command.map fun c => .command c.1 c.2 id
  | .update => (e.offer id).map .offer

theorem ofEnvelope_of_ct {e : Envelope} {kind : RequestKind} (hct : e.ct = some kind.code) :
    ofEnvelope e = e.ackId.bind fun id => settle kind id (e.message kind id) := by
  cases kind <;> simp only [ofEnvelope, hct, require] <;> rfl

theorem Envelope.decodesTo_command {e : Envelope} {text : String} {ack : Option String} {id : Option AckId}
    (cmd : e.cmd = some text) (given : ack = id.map Bounded.text) :
    (Request.command text).DecodesTo ack (settle .command id (e.message .command id)) := by
  have hrun : e.command = (fit 128 "cmd" text).map fun t => (Command.ofText t.text, t) := by
    simp only [command, cmd, require]
    rfl
  rw [message, hrun]
  rcases exists_bounded_or_lt 128 text with ⟨t, rfl⟩ | hlong
  · rw [fit_text]
    exact .command given
  · rw [fit_of_lt _ hlong]
    exact Request.decodesTo_settle_error given (by simp [Request.misfit?, hlong])

theorem Envelope.offer_eq {e : Envelope} {url fileName version : String} {digest : Option ImageDigest}
    {download : Download} (id : Option AckId) (sw : e.sw = some version) (first : e.urls.head? = some download)
    (address : download.url = some url)
    (name : download.fileName = some fileName ∨ download.fileName = none ∧ fileName = "")
    (hex : Option.Rel (fun digest hex => Hex.Spells digest.octets hex.toList) digest download.sha256) :
    e.offer id = do
      let url ← fit maxUrlLength "url" url
      let fileName ← fit 128 "fileName" fileName
      let version ← fit 32 "sw" version
      return { url, fileName, version, ackId := id, digest } := by
  obtain ⟨url', fileName', sha256⟩ := download
  subst address
  unfold offer
  rw [sw, first]
  cases hex with
  | none => rcases name with rfl | ⟨rfl, rfl⟩ <;> rfl
  | some hex =>
    simp only [require, bind, Except.bind, ImageDigest.ofHex?_of_spells hex]
    rcases name with rfl | ⟨rfl, rfl⟩ <;> rfl

theorem Envelope.decodesTo_offer {e : Envelope} {url fileName version : String} {digest : Option ImageDigest}
    {ack : Option String} {id : Option AckId} (given : ack = id.map Bounded.text)
    (hoffer : e.offer id = do
      let url ← fit maxUrlLength "url" url
      let fileName ← fit 128 "fileName" fileName
      let version ← fit 32 "sw" version
      return { url, fileName, version, ackId := id, digest }) :
    (Request.offer url fileName version digest).DecodesTo ack (settle .update id (e.message .update id)) := by
  rw [message, hoffer]
  -- the rooms are looked at one after the other; the first that is too small ends it
  rcases exists_bounded_or_lt maxUrlLength url with ⟨u, rfl⟩ | hurl
  · have hu : ¬ 2000 < u.text.utf8ByteSize := Nat.not_lt.2 u.fits
    rw [fit_text]
    rcases exists_bounded_or_lt 128 fileName with ⟨f, rfl⟩ | hname
    · have hf : ¬ 128 < f.text.utf8ByteSize := Nat.not_lt.2 f.fits
      rw [fit_text]
      rcases exists_bounded_or_lt 32 version with ⟨v, rfl⟩ | hversion
      · rw [fit_text]
        exact .offer (o := ⟨u, f, v, id, digest⟩) given
      · rw [fit_of_lt _ hversion]
        exact Request.decodesTo_settle_error given (by simp [Request.misfit?, hu, hf, hversion])
    · rw [fit_of_lt _ hname]
      exact Request.decodesTo_settle_error given (by simp [Request.misfit?, hu, hname])
  · have hurl' : 2000 < url.utf8ByteSize := hurl
    rw [fit_of_lt _ hurl]
    exact Request.decodesTo_settle_error given (by simp [Request.misfit?, hurl'])

namespace Request

variable {ack : Option String} {request : Request} {e : Envelope}

theorem EnvelopeOf.ct_eq (h : request.EnvelopeOf ack e) : e.ct = some request.kind.code := by
  cases h with
  | command ct => exact ct
  | offer ct => exact ct

theorem EnvelopeOf.ack_eq (h : request.EnvelopeOf ack e) : e.ack = ack := by
  cases h with
  | command _ id => exact id
  | offer _ id => exact id

theorem EnvelopeOf.decodesTo (h : request.EnvelopeOf ack e) {id : Option AckId} (given : ack = id.map Bounded.text) :
    request.DecodesTo ack (settle request.kind id (e.message request.kind id)) := by
  cases h with
  | command _ _ cmd => exact Envelope.decodesTo_command cmd given
  | offer _ _ sw first address name hex =>
    exact Envelope.decodesTo_offer given (Envelope.offer_eq id sw first address name hex)

end Request

/-! ## Payloads -/

/-- **What is decoded is what was written.**  A request that is written in any way is decoded with its texts, its id
and its digest as they are.  If a text has not the room it needs, the first such field is named: under the id, or as
the failure of the decoding if there is no id or the id itself is too long. -/
theorem decodes_written {ack : Option String} {request : Request} {e : Envelope} {payload : Bytes}
    (hack : ack ≠ some "") (he : request.EnvelopeOf ack e) (hw : e.Writes payload) :
    request.DecodesTo ack (parse payload) := by
  have hct := he.ct_eq
  have htype : ∀ n ∈ e.ct, n < UInt16.size := by
    rw [hct]
    rintro n ⟨⟩
    exact request.kind.code_lt
  have hrun : parse payload = e.ackId.bind fun id => settle request.kind id (e.message request.kind id) := by
    simp only [parse, Envelope.parse?_of_writes htype hw, ofEnvelope_of_ct hct]
  rw [hrun]
  rcases Envelope.ackId_cases he.ack_eq hack with ⟨id, given, hid⟩ | ⟨id, given, hlong, hid⟩
  · rw [hid]
    exact he.decodesTo given
  · rw [hid]
    exact .overlongId given hlong

/-- A ping under the id U+1F680, escaped as a surrogate pair; the first letter of the command is escaped too. -/
def escapedPing : Bytes := Bytes.ofText "\x7b\"ct\":0, \"ack\":\"\\uD83d\\uDE80\", \"cmd\":\"\\u0070ing\"\x7d"

def pingEnvelope : Envelope := { ct := some 0, cmd := some "ping", ack := some "🚀", sw := none, urls := [] }

theorem pingEnvelope_writes : pingEnvelope.Writes escapedPing := by
  refine ⟨[("ct", .number 0), ("ack", .text "🚀"), ("cmd", .text "ping")],
    ⟨by decide, rfl, rfl, rfl, .inl rfl, .inl ⟨rfl, rfl⟩⟩,
    .object [((Bytes.ofText "ct").map .octet, .number [0x30]),
      ((Bytes.ofText "ack").map .octet, .string [.unit 0xD83D, .unit 0xDE80]),
      ((Bytes.ofText "cmd").map .octet, .string (.unit 0x70 :: (Bytes.ofText "ing").map .octet))], ?_, ?_⟩
  · exact .object (.cons (Content.spells_ofText "ct") (.number 0)
      (.cons (Content.spells_ofText "ack") (.text (.escaped .nil))
        (.cons (Content.spells_ofText "cmd") (.text (.escaped (Content.spells_ofText "ing"))) .nil)))
  · have hrocket : Content.Writes [.unit 0xD83D, .unit 0xDE80] (Bytes.ofText "\\uD83d\\uDE80") :=
      .cons (.unit ['D', '8', '3', 'd'] (by decide)) (.cons (.unit ['D', 'E', '8', '0'] (by decide)) .nil)
    have hping : Content.Writes (.unit 0x70 :: (Bytes.ofText "ing").map .octet) (Bytes.ofText "\\u0070ing") :=
      .cons (.unit ['0', '0', '7', '0'] (by decide)) (Content.writes_octets _ (by decide +kernel))
    have hzero : Json.IsNumber [0x30] := .mk (.inl rfl) .zero .none .none
    exact .token .openObject <|
      .token (Token.writes_octets (Bytes.ofText "ct") (by decide +kernel)) <| .token .colon <|
      .token (.number hzero) <| .token .comma <| .blank rfl <|
      .token (Token.writes_octets (Bytes.ofText "ack") (by decide +kernel)) <| .token .colon <|
      .token (.string hrocket) <| .token .comma <| .blank rfl <|
      .token (Token.writes_octets (Bytes.ofText "cmd") (by decide +kernel)) <| .token .colon <|
      .token (.string hping) <| .token .closeObject <| .nil (by decide +kernel)

theorem escapedPing_decodes :
    some "🚀" ≠ some "" ∧ (Request.command "ping").EnvelopeOf (some "🚀") pingEnvelope ∧
      pingEnvelope.Writes escapedPing ∧ (Request.command "ping").DecodesTo (some "🚀") (parse escapedPing) :=
  have hack : some "🚀" ≠ some "" := by decide
  have he : (Request.command "ping").EnvelopeOf (some "🚀") pingEnvelope := .command rfl rfl rfl
  ⟨hack, he, pingEnvelope_writes, decodes_written hack he pingEnvelope_writes⟩

end Inbound
end Firmware
