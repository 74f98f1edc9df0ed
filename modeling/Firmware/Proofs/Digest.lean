import Firmware.Proofs.Decoding
/-!
# Digest — which texts an offer's digest is read from

An offer may name the digest of its image in hexadecimal digits.  Each octet is read from two characters, and a plus
sign is let through in the place of the first.  So 64 digits are read as the octets that they spell, and a text that is
not read refuses the offer; but texts with a plus sign are read as well (`digest_exact_iff`).
-/
namespace Firmware.Inbound

/-! ## Steps of a decoding -/

theorem bind_eq_ok_iff {α β : Type} {x : Except MessageError α} {next : α → Except MessageError β} {b : β} :
    x >>= next = .ok b ↔ ∃ a, x = .ok a ∧ next a = .ok b := by
  cases x with
  | error e => simp [bind, Except.bind]
  | ok a => simp [bind, Except.bind]

theorem bind_eq_error_iff {α β : Type} {x : Except MessageError α} {next : α → Except MessageError β}
    {e : MessageError} : x >>= next = .error e ↔ x = .error e ∨ ∃ a, x = .ok a ∧ next a = .error e := by
  cases x with
  | error e => simp [bind, Except.bind]
  | ok a => simp [bind, Except.bind]

theorem require_eq_ok_iff {α : Type} {name : String} {a? : Option α} {a : α} :
    require name a? = .ok a ↔ a? = some a := by
  cases a? <;> simp [require]

theorem require_eq_error_iff {α : Type} {name : String} {a? : Option α} {e : MessageError} :
    require name a? = .error e ↔ a? = none ∧ e = .missingField name := by
  cases a? <;> simp [require, eq_comm]

theorem fit_eq_ok_iff {limit : Nat} {name s : String} {t : Bounded limit} : fit limit name s = .ok t ↔ t.text = s := by
  unfold fit
  rw [← Bounded.ofText?_eq_some]
  cases Bounded.ofText? limit s <;> simp

theorem fit_eq_error_iff {limit : Nat} {name s : String} {e : MessageError} :
    fit limit name s = .error e ↔ limit < s.utf8ByteSize ∧ e = .fieldTooLong name := by
  unfold fit
  rw [← Bounded.ofText?_eq_none]
  cases Bounded.ofText? limit s <;> simp [eq_comm]

theorem settle_eq_ok_iff {kind : RequestKind} {id : Option AckId} {r : Except MessageError Inbound} {message : Inbound}
    (hmessage : ∀ kind id e, message ≠ .malformed kind id e) : settle kind id r = .ok message ↔ r = .ok message := by
  cases r with
  | ok message => rfl
  | error e =>
    cases id with
    | none => rfl
    | some id => simp [settle, Ne.symm (hmessage kind id e)]

theorem settle_eq_offer_iff {kind : RequestKind} {id : Option AckId} {r : Except MessageError Inbound} {o : Offer} :
    settle kind id r = .ok (.offer o) ↔ r = .ok (.offer o) := settle_eq_ok_iff (by simp)

theorem settle_error_inj {kind : RequestKind} {id : Option AckId} {e e' : MessageError}
    (h : settle kind id (.error e) = settle kind id (.error e')) : e = e' := by
  cases id with
  | none => exact Except.error.inj h
  | some id => exact (Inbound.malformed.inj (Except.ok.inj h)).2.2

/-! ## Offers -/

def Envelope.Asks (e : Envelope) : Option AckId → Prop
  | none => e.ack = none ∨ e.ack = some ""
  | some id => e.ack = some id.text ∧ id.text ≠ ""

/-- The envelope makes this offer, about this download, if the digest is left aside. -/
structure Envelope.Makes (e : Envelope) (download : Download) (o : Offer) : Prop where
  ct : e.ct = some 1
  ack : e.Asks o.ackId
  sw : e.sw = some o.version.text
  first : e.urls.head? = some download
  url : download.url = some o.url.text
  fileName : o.fileName.text = download.fileName.getD ""

structure Envelope.HasDigest (e : Envelope) (hex : String) : Prop where
  ct : e.ct = some 1
  version : ∃ version, e.sw = some version
  first : ∃ download, e.urls.head? = some download ∧ download.sha256 = some hex

def Download.digest (download : Download) : Except MessageError (Option ImageDigest) :=
  match download.sha256 with
  | none => .ok none
  | some hex =>
    match ImageDigest.ofHex? hex with
    | some digest => .ok (some digest)
    | none => .error (.invalidField "sha256")

theorem Download.digest_eq_ok_iff {download : Download} {digest : Option ImageDigest} :
    download.digest = .ok digest ↔
      Option.Rel (fun digest hex => Hex.Reads digest.octets hex.toList) digest download.sha256 := by
  unfold Download.digest
  cases download.sha256 with
  | none =>
    constructor
    · intro h
      cases h
      exact .none
    · intro h
      cases h
      rfl
  | some hex =>
    constructor
    · intro h
      cases hread : ImageDigest.ofHex? hex with
      | none => simp [hread] at h
      | some d =>
        simp only [hread, Except.ok.injEq] at h
        subst h
        exact .some (ImageDigest.ofHex?_eq_some_iff.1 hread)
    · intro h
      cases h with
      | some h => simp [ImageDigest.ofHex?_eq_some_iff.2 h]

namespace Envelope

variable {e : Envelope} {id : Option AckId} {o : Offer} {download : Download}

theorem ackId_eq_ok_iff : e.ackId = .ok id ↔ e.Asks id := by
  cases hack : e.ack with
  | none => cases id <;> simp [ackId, Asks, hack]
  | some text =>
    by_cases hempty : text = ""
    · subst hempty
      have hnone : e.ackId = .ok none := by
        simp only [ackId, hack]
        rfl
      rw [hnone]
      cases id with
      | none => simp [Asks, hack]
      | some t =>
        constructor
        · intro h
          cases h
        · rintro ⟨htext, hne⟩
          rw [hack] at htext
          exact absurd (Option.some.inj htext).symm hne
    · rw [ackId_of_ne hack hempty]
      cases id with
      | none => cases fit 64 "ack" text <;> simp [Asks, hack, hempty, Except.map]
      | some t =>
        have hfit : (fit 64 "ack" text).map some = .ok (some t) ↔ fit 64 "ack" text = .ok t := by
          cases fit 64 "ack" text <;> simp [Except.map]
        rw [hfit, fit_eq_ok_iff, Asks, hack, Option.some.injEq]
        constructor
        · rintro rfl
          exact ⟨rfl, hempty⟩
        · rintro ⟨rfl, -⟩
          rfl

theorem offer_eq_bind (e : Envelope) (id : Option AckId) :
    e.offer id = do
      let version ← require "sw" e.sw
      let download ← require "urls" e.urls.head?
      let digest ← download.digest
      let url ← fit maxUrlLength "url" (← require "url" download.url)
      let fileName ← fit 128 "fileName" (download.fileName.getD "")
      let version ← fit 32 "sw" version
      return { url, fileName, version, ackId := id, digest } := by
  unfold offer
  congr
  funext version
  congr
  funext download
  unfold Download.digest
  cases download.sha256 with
  | none => rfl
  | some hex =>
    dsimp only
    cases ImageDigest.ofHex? hex <;> rfl

theorem offer_eq_ok_iff :
    e.offer id = .ok o ↔ ∃ download, e.sw = some o.version.text ∧ e.urls.head? = some download ∧
      download.digest = .ok o.digest ∧ download.url = some o.url.text ∧
      o.fileName.text = download.fileName.getD "" ∧ o.ackId = id := by
  rw [offer_eq_bind]
  simp only [bind_eq_ok_iff, require_eq_ok_iff, fit_eq_ok_iff]
  constructor
  · rintro ⟨_, hsw, download, hfirst, digest, hdigest, _, haddress, url, rfl, fileName, hname, version, rfl, ho⟩
    cases ho
    exact ⟨download, hsw, hfirst, hdigest, haddress, hname, rfl⟩
  · rintro ⟨download, hsw, hfirst, hdigest, haddress, hname, rfl⟩
    exact ⟨_, hsw, download, hfirst, _, hdigest, _, haddress, _, rfl, _, hname, _, rfl, rfl⟩

theorem offer_of_unread {hex : String} (h : e.HasDigest hex) (hunread : ImageDigest.ofHex? hex = none) :
    e.offer id = .error (.invalidField "sha256") := by
  obtain ⟨version, hsw⟩ := h.version
  obtain ⟨download, hfirst, hhex⟩ := h.first
  have hdigest : download.digest = .error (.invalidField "sha256") := by simp [Download.digest, hhex, hunread]
  rw [offer_eq_bind]
  refine bind_eq_error_iff.2 (.inr ⟨version, require_eq_ok_iff.2 hsw, ?_⟩)
  refine bind_eq_error_iff.2 (.inr ⟨download, require_eq_ok_iff.2 hfirst, ?_⟩)
  exact bind_eq_error_iff.2 (.inl hdigest)

theorem offer_ne_of_read {digest : Option ImageDigest} {name : String} (hfirst : e.urls.head? = some download)
    (hread : download.digest = .ok digest) : e.offer id ≠ .error (.invalidField name) := by
  rw [offer_eq_bind]
  intro h
  -- every other step that fails misses a field or finds one too long
  simp only [bind_eq_error_iff, require_eq_ok_iff, require_eq_error_iff, fit_eq_error_iff, hfirst, reduceCtorEq,
    and_false, exists_false, false_or, or_false, Option.some.injEq, exists_eq_left', pure, Except.pure] at h
  obtain ⟨-, -, hunread⟩ := h
  rw [hread] at hunread
  cases hunread

end Envelope

/-! ## Payloads -/

variable {payload : Bytes} {e : Envelope} {o : Offer}

theorem ofEnvelope_eq_offer_iff :
    ofEnvelope e = .ok (.offer o) ↔ e.ct = some 1 ∧ ∃ id, e.ackId = .ok id ∧ e.offer id = .ok o := by
  have hupdate : ∀ id, settle .update id ((e.offer id).map .offer) = .ok (.offer o) ↔ e.offer id = .ok o := fun id => by
    rw [settle_eq_offer_iff]
    cases e.offer id <;> simp [Except.map]
  unfold ofEnvelope
  simp only [bind_eq_ok_iff, require_eq_ok_iff]
  constructor
  · rintro ⟨type, hct, id, hid, h⟩
    split at h
    · rw [settle_eq_offer_iff] at h
      cases hcommand : e.command <;> simp [hcommand, Except.map] at h
    split at h
    · rename_i htype
      rw [hupdate] at h
      exact ⟨htype ▸ hct, id, hid, h⟩
    · cases h
  · rintro ⟨hct, id, hid, h⟩
    exact ⟨1, hct, id, hid, (hupdate id).2 h⟩

/-- **A payload is decoded to an offer** if its envelope makes the offer, and its text for a digest is read as one. -/
theorem parse_eq_offer_iff :
    parse payload = .ok (.offer o) ↔ ∃ e download, Envelope.parse? payload = some e ∧ e.Makes download o ∧
      Option.Rel (fun digest hex => Hex.Reads digest.octets hex.toList) o.digest download.sha256 := by
  have hparse : parse payload = .ok (.offer o) ↔
      ∃ e, Envelope.parse? payload = some e ∧ ofEnvelope e = .ok (.offer o) := by
    unfold parse
    cases Envelope.parse? payload <;> simp
  simp only [hparse, ofEnvelope_eq_offer_iff, Envelope.ackId_eq_ok_iff, Envelope.offer_eq_ok_iff,
    Download.digest_eq_ok_iff]
  constructor
  · rintro ⟨e, he, hct, id, hid, download, hsw, hfirst, hdigest, hurl, hname, rfl⟩
    exact ⟨e, download, he, ⟨hct, hid, hsw, hfirst, hurl, hname⟩, hdigest⟩
  · rintro ⟨e, download, he, h, hdigest⟩
    exact ⟨e, he, h.ct, _, h.ack, download, h.sw, h.first, hdigest, h.url, h.fileName, rfl⟩

/-- The payload makes the offer with this digest, for which a text stands there in the sense given. -/
def OffersWith (stands : Bytes → List Char → Prop) (payload : Bytes) (o : Offer) (digest : ImageDigest) : Prop :=
  ∃ e download hex, Envelope.parse? payload = some e ∧ e.Makes download o ∧ o.digest = some digest ∧
    download.sha256 = some hex ∧ stands digest.octets hex.toList

/-- **The texts that the digest of an offer is read from.** -/
theorem offersWith_reads_iff {digest : ImageDigest} :
    parse payload = .ok (.offer o) ∧ o.digest = some digest ↔ OffersWith Hex.Reads payload o digest := by
  rw [parse_eq_offer_iff]
  constructor
  · rintro ⟨⟨e, download, he, hmakes, hrel⟩, hdigest⟩
    rw [hdigest] at hrel
    generalize hhex : download.sha256 = text at hrel
    cases hrel with
    | some hreads => exact ⟨e, download, _, he, hmakes, hdigest, hhex, hreads⟩
  · rintro ⟨e, download, hex, he, hmakes, hdigest, hhex, hreads⟩
    refine ⟨⟨e, download, he, hmakes, ?_⟩, hdigest⟩
    rw [hdigest, hhex]
    exact .some hreads

/-- Only texts of 64 digits are read as a digest: an offer has the digest that its text spells digit by digit, and with
any other text it is refused, under its id if it has one. -/
structure ExactDigest (payload : Bytes) : Prop where
  spelled : ∀ o digest, parse payload = .ok (.offer o) ∧ o.digest = some digest ↔ OffersWith Hex.Spells payload o digest
  refused : ∀ e hex, Envelope.parse? payload = some e → e.HasDigest hex →
    (∀ digest : ImageDigest, ¬ Hex.Spells digest.octets hex.toList) →
    parse payload = e.ackId.bind fun id => settle .update id (.error (.invalidField "sha256"))

/-- The payload is an offer whose text for a digest has a plus sign and is read all the same. -/
def SignedDigest (payload : Bytes) : Prop :=
  ∃ (e : Envelope) (hex : String) (digest : ImageDigest), Envelope.parse? payload = some e ∧ e.HasDigest hex ∧
    (∃ id, e.ackId = .ok id) ∧ Hex.Reads digest.octets hex.toList ∧ '+' ∈ hex.toList

theorem parse_of_update (he : Envelope.parse? payload = some e) (hct : e.ct = some 1) :
    parse payload = e.ackId.bind fun id => settle .update id ((e.offer id).map .offer) := by
  have hupdate : e.ct = some RequestKind.update.code := hct
  have hrun := ofEnvelope_of_ct hupdate
  simp only [parse, he, hrun]
  rfl

theorem not_exactDigest_of_signed (h : SignedDigest payload) : ¬ ExactDigest payload := by
  obtain ⟨e, hex, digest, he, hhas, ⟨id, hid⟩, hreads, hplus⟩ := h
  intro hexact
  have hunspelled : ∀ other : ImageDigest, ¬ Hex.Spells other.octets hex.toList := fun other hspells =>
    (Hex.spells_iff.1 hspells).2 hplus
  obtain ⟨download, hfirst, hhex⟩ := hhas.first
  have hread : download.digest = .ok (some digest) := by
    rw [Download.digest_eq_ok_iff, hhex]
    exact .some hreads
  have hrefused := hexact.refused e hex he hhas hunspelled
  rw [parse_of_update he hhas.ct, hid] at hrefused
  have hsettle : settle .update id ((e.offer id).map .offer) = settle .update id (.error (.invalidField "sha256")) :=
    hrefused
  cases hoffer : e.offer id with
  | error why =>
    rw [hoffer] at hsettle
    have hwhy := settle_error_inj hsettle
    rw [hwhy] at hoffer
    exact Envelope.offer_ne_of_read hfirst hread hoffer
  | ok o =>
    rw [hoffer] at hsettle
    have hoffered : settle .update id (.error (.invalidField "sha256")) = .ok (.offer o) := hsettle.symm
    cases settle_eq_offer_iff.1 hoffered

theorem exactDigest_of_not_signed (h : ¬ SignedDigest payload) : ExactDigest payload := by
  refine ⟨fun o digest => ?_, fun e hex he hhas hunspelled => ?_⟩
  · rw [offersWith_reads_iff]
    constructor
    · rintro ⟨e, download, hex, he, hmakes, hdigest, hhex, hreads⟩
      have hhas : e.HasDigest hex := ⟨hmakes.ct, ⟨_, hmakes.sw⟩, download, hmakes.first, hhex⟩
      have hplus : '+' ∉ hex.toList := fun hplus =>
        h ⟨e, hex, digest, he, hhas, ⟨_, Envelope.ackId_eq_ok_iff.2 hmakes.ack⟩, hreads, hplus⟩
      exact ⟨e, download, hex, he, hmakes, hdigest, hhex, Hex.spells_iff.2 ⟨hreads, hplus⟩⟩
    · rintro ⟨e, download, hex, he, hmakes, hdigest, hhex, hspells⟩
      exact ⟨e, download, hex, he, hmakes, hdigest, hhex, (Hex.spells_iff.1 hspells).1⟩
  · rw [parse_of_update he hhas.ct]
    cases hid : e.ackId with
    | error why => rfl
    | ok id =>
      cases hread : ImageDigest.ofHex? hex with
      | none =>
        simp only [Except.bind, Envelope.offer_of_unread hhas hread]
        rfl
      | some digest =>
        have hreads := ImageDigest.ofHex?_eq_some_iff.1 hread
        by_cases hplus : '+' ∈ hex.toList
        · exact absurd ⟨e, hex, digest, he, hhas, ⟨id, hid⟩, hreads, hplus⟩ h
        · exact absurd (Hex.spells_iff.2 ⟨hreads, hplus⟩) (hunspelled digest)

/-- **A digest is read from exactly 64 digits unless a plus sign stands in the place of a first digit**, and then it is
read as well.  What is written of a digest reads back, and a text that is read is what is written of its digest, but for
the case of its digits, unless a plus sign stands in it. -/
theorem digest_exact_iff (payload : Bytes) :
    (ExactDigest payload ↔ ¬ SignedDigest payload) ∧
    (∀ o digest, parse payload = .ok (.offer o) ∧ o.digest = some digest ↔ OffersWith Hex.Reads payload o digest) ∧
    (∀ digest, ImageDigest.ofHex? (Hex.text digest.octets) = some digest) ∧
    ∀ hex digest, ImageDigest.ofHex? hex = some digest →
      (Hex.text digest.octets = hex.toLower ↔ '+' ∉ hex.toList) :=
  ⟨⟨fun hexact hsigned => not_exactDigest_of_signed hsigned hexact, exactDigest_of_not_signed⟩,
    fun _ _ => offersWith_reads_iff, ImageDigest.ofHex?_text, fun _ _ => ImageDigest.text_eq_toLower_iff⟩

def repeated (high low : Char) : String := String.ofList (List.replicate 32 [high, low]).flatten

def offerWith (hex : String) : Bytes :=
  Bytes.ofText ("\x7b\"ct\":1,\"sw\":\"2\",\"urls\":[\x7b\"url\":\"https://h/f\",\"sha256\":\"" ++ hex ++ "\"\x7d]\x7d")

def envelopeWith (hex : String) : Envelope where
  ct := some 1
  cmd := none
  ack := none
  sw := some "2"
  urls := [{ url := some "https://h/f", fileName := none, sha256 := some hex }]

theorem envelopeWith_hasDigest (hex : String) : (envelopeWith hex).HasDigest hex :=
  ⟨rfl, ⟨"2", rfl⟩, _, rfl, rfl⟩

theorem mixedCase_exact :
    ExactDigest (offerWith (repeated 'a' 'F')) ∧
      ∃ digest, ImageDigest.ofHex? (repeated 'a' 'F') = some digest ∧
        Hex.text digest.octets = (repeated 'a' 'F').toLower := by
  have hplus : '+' ∉ (repeated 'a' 'F').toList := by decide +kernel
  have hparse : Envelope.parse? (offerWith (repeated 'a' 'F')) = some (envelopeWith (repeated 'a' 'F')) := by
    decide +kernel
  obtain ⟨hexact, -, -, hlower⟩ := digest_exact_iff (offerWith (repeated 'a' 'F'))
  refine ⟨hexact.2 ?_, ⟨List.replicate 32 0xAF, rfl⟩, by decide +kernel, (hlower _ _ (by decide +kernel)).2 hplus⟩
  rintro ⟨e, hex, digest, he, ⟨-, -, download, hfirst, hhex⟩, -, -, hmem⟩
  rw [hparse] at he
  cases he
  cases hfirst
  cases hhex
  exact hplus hmem

/-- **Text with signs is read as a digest.** -/
theorem signed_text_read : ¬ ∀ payload, ExactDigest payload := by
  intro hexact
  have hparse : Envelope.parse? (offerWith (repeated '+' '0')) = some (envelopeWith (repeated '+' '0')) := by
    decide +kernel
  have hread : ImageDigest.ofHex? (repeated '+' '0') = some ⟨List.replicate 32 0, rfl⟩ := by decide +kernel
  refine not_exactDigest_of_signed ?_ (hexact (offerWith (repeated '+' '0')))
  exact ⟨_, _, _, hparse, envelopeWith_hasDigest _, ⟨none, rfl⟩, ImageDigest.ofHex?_eq_some_iff.1 hread,
    by decide +kernel⟩

end Firmware.Inbound
