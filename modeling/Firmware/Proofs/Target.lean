import Firmware.Proofs.Typing
/-!
# Target — what an offer names to be fetched

The first download that an offer lists says where the image is.  An offer whose first download has no URL, or null in
its place, is refused; an empty text in its place is taken as a URL like any other.  So every offer names something to
fetch unless an empty text stands there and nothing else is wrong with the offer (`names_target_iff`).
-/
namespace Firmware.Inbound

open Json (Value Fields Content)

/-! ## The first download of an offer -/

/-- The value of a field names nothing: there is none, it is null, or it is an empty text. -/
inductive NamesNothing : Option Value → Prop
  | missing : NamesNothing none
  | null : NamesNothing (some .null)
  | empty {content : Content} (text : Content.text? content = some "") : NamesNothing (some (.string content))

/-- The payload is an offer: it is read as the envelope, and its list of downloads begins with this record. -/
structure Lists (payload : Bytes) (e : Envelope) (entry : Fields) : Prop where
  ct : e.ct = some 1
  read : ∃ v fields item items, Value.parse? payload = some v ∧ Envelope.ofJson? v = some e ∧
    v.fields? ["ct", "cmd", "ack", "sw", "urls"] 1 = some fields ∧
    fields.lookup "urls" = some (.array (item :: items)) ∧ item.fields? downloadNames 0 = some entry

theorem textField?_eq_some_iff {fields : Fields} {name : String} {text? : Option String} :
    textField? fields name = some text? ↔
      (text? = none ∧ (fields.lookup name = none ∨ fields.lookup name = some .null)) ∨
        ∃ content text, fields.lookup name = some (.string content) ∧ Content.text? content = some text ∧
          text? = some text := by
  unfold textField?
  cases fields.lookup name with
  | none => simp [Json.optional?, eq_comm]
  | some v =>
    cases v with
    | string content => cases htext : Content.text? content <;> simp [Json.optional?, Value.text?, htext, eq_comm]
    | _ => simp [Json.optional?, Value.text?, eq_comm]

theorem namesNothing_iff {fields : Fields} {name : String} {text? : Option String}
    (h : textField? fields name = some text?) :
    NamesNothing (fields.lookup name) ↔ text? = none ∨ text? = some "" := by
  rcases textField?_eq_some_iff.1 h with ⟨rfl, hmissing | hnull⟩ | ⟨content, text, hstring, htext, rfl⟩
  · rw [hmissing]
    exact ⟨fun _ => .inl rfl, fun _ => .missing⟩
  · rw [hnull]
    exact ⟨fun _ => .inl rfl, fun _ => .null⟩
  · rw [hstring]
    constructor
    · intro hnothing
      cases hnothing with
      | empty hempty => exact .inr (htext.symm.trans hempty)
    · rintro (hnone | hempty)
      · cases hnone
      · exact .empty (htext.trans hempty)

theorem Download.exists_entry {v : Value} {download : Download} (h : Download.ofJson? v = some download) :
    ∃ entry, v.fields? downloadNames 0 = some entry ∧ textField? entry "url" = some download.url := by
  unfold Download.ofJson? at h
  obtain ⟨entry, hentry, h⟩ := Option.bind_eq_some_iff.1 h
  obtain ⟨url, hurl, h⟩ := Option.bind_eq_some_iff.1 h
  obtain ⟨fileName, -, h⟩ := Option.bind_eq_some_iff.1 h
  obtain ⟨sha256, -, h⟩ := Option.bind_eq_some_iff.1 h
  cases h
  exact ⟨entry, hentry, hurl⟩

theorem Envelope.exists_fields {v : Value} {e : Envelope} (h : Envelope.ofJson? v = some e) :
    ∃ fields, v.fields? ["ct", "cmd", "ack", "sw", "urls"] 1 = some fields ∧
      downloads? (fields.lookup "urls") = some e.urls := by
  unfold Envelope.ofJson? at h
  obtain ⟨fields, hfields, h⟩ := Option.bind_eq_some_iff.1 h
  obtain ⟨ct, -, h⟩ := Option.bind_eq_some_iff.1 h
  obtain ⟨cmd, -, h⟩ := Option.bind_eq_some_iff.1 h
  obtain ⟨ack, -, h⟩ := Option.bind_eq_some_iff.1 h
  obtain ⟨sw, -, h⟩ := Option.bind_eq_some_iff.1 h
  obtain ⟨urls, hurls, h⟩ := Option.bind_eq_some_iff.1 h
  cases h
  exact ⟨fields, hfields, hurls⟩

theorem downloads?_cases {v : Option Value} {downloads : List Download} (h : downloads? v = some downloads) :
    ((v = none ∨ v = some (.array [])) ∧ downloads = []) ∨
      ∃ item items download rest, v = some (.array (item :: items)) ∧ downloads = download :: rest ∧
        Download.ofJson? item = some download := by
  cases v with
  | none => exact .inl ⟨.inl rfl, (Option.some.inj h).symm⟩
  | some w =>
    cases w with
    | array items =>
      have hitems : items.mapM Download.ofJson? = some downloads := h
      cases items with
      | nil => exact .inl ⟨.inr rfl, (Option.some.inj hitems).symm⟩
      | cons item items =>
        rw [List.mapM_cons] at hitems
        obtain ⟨download, hdownload, hitems⟩ := Option.bind_eq_some_iff.1 hitems
        obtain ⟨rest, -, hitems⟩ := Option.bind_eq_some_iff.1 hitems
        cases hitems
        exact .inr ⟨item, items, download, rest, rfl, rfl, hdownload⟩
    | _ => cases h

variable {payload : Bytes} {e : Envelope} {entry : Fields} {o : Offer}

theorem Lists.first (h : Lists payload e entry) :
    Envelope.parse? payload = some e ∧
      ∃ download, e.urls.head? = some download ∧ textField? entry "url" = some download.url := by
  obtain ⟨v, fields, item, items, hv, he, hfields, hurls, hentry⟩ := h.read
  refine ⟨by simp [Envelope.parse?, hv, he], ?_⟩
  obtain ⟨fields', hfields', hdownloads⟩ := Envelope.exists_fields he
  rw [hfields, Option.some.injEq] at hfields'
  rw [← hfields', hurls] at hdownloads
  rcases downloads?_cases hdownloads with ⟨hnone | hempty, -⟩ | ⟨item', items', download, rest, hitems, hall, hfirst⟩
  · cases hnone
  · cases hempty
  · obtain ⟨rfl, -⟩ := List.cons.inj (Value.array.inj (Option.some.inj hitems))
    obtain ⟨entry', hentry', hurl⟩ := Download.exists_entry hfirst
    rw [hentry, Option.some.injEq] at hentry'
    exact ⟨download, by rw [hall]; rfl, hentry' ▸ hurl⟩

theorem exists_lists {download : Download} (he : Envelope.parse? payload = some e) (hct : e.ct = some 1)
    (hfirst : e.urls.head? = some download) :
    ∃ entry, Lists payload e entry ∧ textField? entry "url" = some download.url := by
  obtain ⟨v, hv, hofJson⟩ := Option.bind_eq_some_iff.1 he
  obtain ⟨fields, hfields, hdownloads⟩ := Envelope.exists_fields hofJson
  rcases downloads?_cases hdownloads with ⟨-, hnone⟩ | ⟨item, items, first, rest, hurls, hall, hitem⟩
  · rw [hnone] at hfirst
    cases hfirst
  · rw [hall] at hfirst
    cases hfirst
    obtain ⟨entry, hentry, hurl⟩ := Download.exists_entry hitem
    exact ⟨entry, ⟨hct, v, fields, item, items, hv, hofJson, hfields, hurls, hentry⟩, hurl⟩

/-! ## Offers that are reported -/

/-- The offer is reported as one that cannot be decoded: under its id if it carries one, and as the failure of the
decoding otherwise. -/
def Reported (payload : Bytes) (e : Envelope) : Prop :=
  ∃ why, (∀ id, e.Asks (some id) → parse payload = .ok (.malformed .update id why)) ∧
    ((∀ id, ¬ e.Asks (some id)) → parse payload = .error why)

/-- **An offer that is not decoded is reported.** -/
theorem reported_of_not_decoded (he : Envelope.parse? payload = some e) (hct : e.ct = some 1)
    (h : ∀ o, parse payload ≠ .ok (.offer o)) : Reported payload e := by
  have hrun := parse_of_update he hct
  cases hid : e.ackId with
  | error why =>
    rw [hid] at hrun
    refine ⟨why, fun id hasks => ?_, fun _ => hrun⟩
    rw [Envelope.ackId_eq_ok_iff.2 hasks] at hid
    cases hid
  | ok id =>
    have hsettle : parse payload = settle .update id ((e.offer id).map .offer) := by rw [hrun, hid]; rfl
    cases hoffer : e.offer id with
    | ok o =>
      rw [hoffer] at hsettle
      exact absurd hsettle (h o)
    | error why =>
      rw [hoffer] at hsettle
      refine ⟨why, fun id' hasks => ?_, fun hnone => ?_⟩
      · rw [Envelope.ackId_eq_ok_iff.2 hasks, Except.ok.injEq] at hid
        rw [hsettle, ← hid]
        rfl
      · cases id with
        | none => exact hsettle
        | some id => exact absurd (Envelope.ackId_eq_ok_iff.1 hid) (hnone id)

/-! ## What an offer names -/

/-- Every offer names something to fetch: one that is decoded has a URL that is not empty, and one whose first download
names nothing is reported. -/
structure NamesTarget (payload : Bytes) : Prop where
  named : ∀ o, parse payload = .ok (.offer o) → o.url.text ≠ ""
  reported : ∀ e entry, Lists payload e entry → NamesNothing (entry.lookup "url") → Reported payload e

/-- An empty text stands for the URL of the first download, and nothing else is wrong with the offer. -/
structure Blank (payload : Bytes) (e : Envelope) (entry : Fields) (download : Download) : Prop where
  lists : Lists payload e entry
  first : e.urls.head? = some download
  empty : ∃ content, entry.lookup "url" = some (.string content) ∧ Content.text? content = some ""
  ack : ∃ id, e.Asks id
  version : ∃ version : Bounded 32, e.sw = some version.text
  fileName : (download.fileName.getD "").utf8ByteSize ≤ 128
  digest : ∀ hex, download.sha256 = some hex → ∃ digest : ImageDigest, Hex.Reads digest.octets hex.toList

theorem exists_makes (h : parse payload = .ok (.offer o)) :
    ∃ e entry download, Lists payload e entry ∧ e.Makes download o ∧
      Option.Rel (fun digest hex => Hex.Reads digest.octets hex.toList) o.digest download.sha256 := by
  obtain ⟨e, download, he, hmakes, hdigest⟩ := parse_eq_offer_iff.1 h
  obtain ⟨entry, hlists, -⟩ := exists_lists he hmakes.ct hmakes.first
  exact ⟨e, entry, download, hlists, hmakes, hdigest⟩

theorem Lists.reads_url (hlists : Lists payload e entry) (h : parse payload = .ok (.offer o)) :
    textField? entry "url" = some (some o.url.text) := by
  obtain ⟨he, first, hfirst, hfield⟩ := hlists.first
  obtain ⟨e', download, he', hmakes, -⟩ := parse_eq_offer_iff.1 h
  obtain rfl : e' = e := Option.some.inj (he'.symm.trans he)
  obtain rfl : download = first := Option.some.inj (hmakes.first.symm.trans hfirst)
  rw [hfield, hmakes.url]

theorem Lists.exists_content (hlists : Lists payload e entry) (h : parse payload = .ok (.offer o)) :
    ∃ content, entry.lookup "url" = some (.string content) ∧ Content.text? content = some o.url.text := by
  rcases textField?_eq_some_iff.1 (hlists.reads_url h) with ⟨hnone, -⟩ | ⟨content, text, hstring, htext, hurl⟩
  · cases hnone
  · cases hurl
    exact ⟨content, hstring, htext⟩

theorem Lists.url_eq_empty (hlists : Lists payload e entry) (hnothing : NamesNothing (entry.lookup "url"))
    (h : parse payload = .ok (.offer o)) : o.url.text = "" := by
  rcases (namesNothing_iff (hlists.reads_url h)).1 hnothing with hnone | hempty
  · cases hnone
  · exact Option.some.inj hempty

theorem Lists.reported (h : Lists payload e entry)
    (hnone : entry.lookup "url" = none ∨ entry.lookup "url" = some .null) : Reported payload e := by
  refine reported_of_not_decoded h.first.1 h.ct fun o hoffer => ?_
  have hread : textField? entry "url" = some none := textField?_eq_some_iff.2 (.inl ⟨rfl, hnone⟩)
  rw [h.reads_url hoffer] at hread
  cases hread

theorem Blank.exists_offer {download : Download} (h : Blank payload e entry download) :
    ∃ o, parse payload = .ok (.offer o) ∧ o.url.text = "" := by
  obtain ⟨he, first, hfirst, hfield⟩ := h.lists.first
  obtain rfl : first = download := Option.some.inj (hfirst.symm.trans h.first)
  obtain ⟨content, hstring, htext⟩ := h.empty
  have hurl : first.url = some "" := by
    have hread : textField? entry "url" = some (some "") :=
      textField?_eq_some_iff.2 (.inr ⟨content, "", hstring, htext, rfl⟩)
    exact Option.some.inj (hfield.symm.trans hread)
  obtain ⟨id, hack⟩ := h.ack
  obtain ⟨version, hversion⟩ := h.version
  have hdigest : ∃ digest : Option ImageDigest,
      Option.Rel (fun digest hex => Hex.Reads digest.octets hex.toList) digest first.sha256 := by
    cases hhex : first.sha256 with
    | none => exact ⟨none, .none⟩
    | some hex =>
      obtain ⟨digest, hreads⟩ := h.digest hex hhex
      exact ⟨some digest, .some hreads⟩
  obtain ⟨digest, hdigest⟩ := hdigest
  let o : Offer := { url := Bounded.empty, fileName := ⟨_, h.fileName⟩, version, ackId := id, digest }
  exact ⟨o, parse_eq_offer_iff.2 ⟨e, first, he, ⟨h.lists.ct, hack, hversion, hfirst, hurl, rfl⟩, hdigest⟩, rfl⟩

theorem exists_blank (h : parse payload = .ok (.offer o)) (hurl : o.url.text = "") :
    ∃ e entry download, Blank payload e entry download := by
  obtain ⟨e, entry, download, hlists, hmakes, hdigest⟩ := exists_makes h
  obtain ⟨content, hstring, htext⟩ := hlists.exists_content h
  refine ⟨e, entry, download, hlists, hmakes.first, ⟨content, hstring, hurl ▸ htext⟩, ⟨_, hmakes.ack⟩, ⟨_, hmakes.sw⟩,
    hmakes.fileName ▸ o.fileName.fits, fun hex hhex => ?_⟩
  rw [hhex] at hdigest
  generalize o.digest = digest at hdigest
  cases hdigest with
  | some hreads => exact ⟨_, hreads⟩

theorem namesTarget_iff_not_blank :
    NamesTarget payload ↔ ¬ ∃ e entry download, Blank payload e entry download := by
  constructor
  · rintro hnames ⟨e, entry, download, hblank⟩
    obtain ⟨o, hoffer, hurl⟩ := hblank.exists_offer
    exact hnames.named o hoffer hurl
  · intro hblank
    have hnamed : ∀ o, parse payload = .ok (.offer o) → o.url.text ≠ "" := fun o h hurl => hblank (exists_blank h hurl)
    refine ⟨hnamed, fun e entry hlists hnothing => ?_⟩
    exact reported_of_not_decoded hlists.first.1 hlists.ct fun o h => hnamed o h (hlists.url_eq_empty hnothing h)

/-- **Every offer names something to fetch unless an empty text stands for its URL** and nothing else is wrong with it.
An offer whose first download has no URL, or null in its place, is reported in any case; the URL of one that is decoded
is the text that stands there; and what is not read as an envelope is refused as no message. -/
theorem names_target_iff (payload : Bytes) :
    (NamesTarget payload ↔ ¬ ∃ e entry download, Blank payload e entry download) ∧
    (∀ e entry, Lists payload e entry → entry.lookup "url" = none ∨ entry.lookup "url" = some .null →
      Reported payload e) ∧
    (∀ o, parse payload = .ok (.offer o) → ∃ e entry content, Lists payload e entry ∧
      entry.lookup "url" = some (.string content) ∧ Content.text? content = some o.url.text) ∧
    (Envelope.parse? payload = none → parse payload = .error .json) := by
  refine ⟨namesTarget_iff_not_blank, fun e entry hlists hnone => hlists.reported hnone, fun o h => ?_, fun h => ?_⟩
  · obtain ⟨e, entry, -, hlists, -, -⟩ := exists_makes h
    obtain ⟨content, hstring, htext⟩ := hlists.exists_content h
    exact ⟨e, entry, content, hlists, hstring, htext⟩
  · simp only [parse, h]

def nullOffer : Bytes := Bytes.ofText "\x7b\"ct\":1,\"ack\":\"a\",\"sw\":\"2\",\"urls\":[\x7b\"url\":null\x7d]\x7d"

def nullEnvelope : Envelope where
  ct := some 1
  cmd := none
  ack := some "a"
  sw := some "2"
  urls := [{ url := none, fileName := none, sha256 := none }]

theorem nullOffer_reported :
    NamesTarget nullOffer ∧ (∃ entry, Lists nullOffer nullEnvelope entry) ∧
      ∃ why, parse nullOffer = .ok (.malformed .update ⟨"a", by decide⟩ why) := by
  have hread : Envelope.parse? nullOffer = some nullEnvelope := by decide +kernel
  obtain ⟨hnames, hreported, -, -⟩ := names_target_iff nullOffer
  obtain ⟨entry, hlists, hfield⟩ := exists_lists hread rfl rfl
  have hnone : entry.lookup "url" = none ∨ entry.lookup "url" = some .null := by
    rcases textField?_eq_some_iff.1 hfield with ⟨-, hnone⟩ | ⟨_, _, _, _, hsome⟩
    · exact hnone
    · cases hsome
  obtain ⟨why, hmalformed, -⟩ := hreported _ _ hlists hnone
  have hparse := hmalformed ⟨"a", by decide⟩ ⟨rfl, by decide⟩
  refine ⟨hnames.2 ?_, ⟨entry, hlists⟩, why, hparse⟩
  rintro ⟨e, entry, download, hblank⟩
  obtain ⟨o, hoffer, -⟩ := hblank.exists_offer
  rw [hparse] at hoffer
  cases hoffer

def emptyOffer : Bytes := Bytes.ofText "\x7b\"ct\":1,\"sw\":\"2\",\"urls\":[\x7b\"url\":\"\"\x7d]\x7d"

/-- **An empty text is taken as a URL.** -/
theorem empty_url_accepted : ¬ ∀ payload, NamesTarget payload := by
  intro hnames
  have hoffer : parse emptyOffer = .ok (.offer
      { url := ⟨"", by decide⟩, fileName := ⟨"", by decide⟩, version := ⟨"2", by decide⟩, ackId := none,
        digest := none }) := by
    decide +kernel
  exact (hnames emptyOffer).named _ hoffer rfl

end Firmware.Inbound
