import Firmware.Message.Inbound
import Firmware.Proofs.Scanning
/-!
# Url — a URL is split in one way

`Splits` says how a URL is put together: a scheme before its first `://`, a host up to the next slash, and a resource
that begins with that slash.  A URL of at most 2000 octets is accepted exactly if it splits so, with a host that fits
(`splits_in_one_way`).  The parts put together are the URL again, no other parts are, and what is appended to a URL is
appended to its resource.
-/
namespace Firmware.ImageUrl

/-- The URL is this scheme, host and resource put together: the scheme ends at the first `://`, and the host at the
slash that the resource begins with. -/
structure Splits (url scheme host resource : String) : Prop where
  joined : url = scheme ++ "://" ++ host ++ resource
  named : scheme ≠ ""
  first : ∀ before after, url = before ++ "://" ++ after → scheme.length ≤ before.length
  hostPos : 1 ≤ host.utf8ByteSize
  hostFits : host.utf8ByteSize ≤ 128
  plain : '/' ∉ host.toList
  rooted : ∃ path, resource = "/" ++ path

def separator : List Char := [':', '/', '/']

/-! ## The parts as lists of characters -/

section Characters

variable {url : String} {scheme host rest : List Char}

theorem takeWhile_host (h : '/' ∉ host) (path : List Char) :
    (host ++ '/' :: path).takeWhile (· != '/') = host ∧ (host ++ '/' :: path).dropWhile (· != '/') = '/' :: path := by
  have hhost : ∀ c ∈ host, (c != '/') = true := fun c hc => bne_iff_ne.2 fun heq => h (heq ▸ hc)
  rw [List.takeWhile_append_of_pos hhost, List.dropWhile_append_of_pos hhost, List.takeWhile_cons_of_neg (by simp),
    List.dropWhile_cons_of_neg (by simp), List.append_nil]
  exact ⟨rfl, rfl⟩

theorem splitOnce_iff_first :
    Scan.splitOnce separator url.toList = some (scheme, rest) ↔
      url = String.ofList scheme ++ "://" ++ String.ofList rest ∧
        ∀ before after, url = before ++ "://" ++ after → scheme.length ≤ before.length := by
  have hjoined (before after : List Char) :
      url.toList = before ++ separator ++ after ↔ url = String.ofList before ++ "://" ++ String.ofList after := by
    rw [← String.toList_inj]
    simp [separator]
  rw [Scan.splitOnce_eq_some_iff (by decide), hjoined]
  refine and_congr_right fun _ => ⟨fun h before after hurl => ?_, fun h before after hurl => ?_⟩
  · have hlists := (hjoined before.toList after.toList).2 (by simpa using hurl)
    simpa [String.length_toList] using h _ _ hlists
  · simpa using h _ _ ((hjoined before after).1 hurl)

end Characters

/-! ## One way to split -/

namespace Splits

variable {url scheme host resource scheme' host' resource' : String}

theorem splitOnce (h : Splits url scheme host resource) :
    Scan.splitOnce separator url.toList = some (scheme.toList, host.toList ++ resource.toList) := by
  have hjoined := h.joined
  rw [String.append_assoc] at hjoined
  exact splitOnce_iff_first.2 ⟨by simpa using hjoined, by simpa [String.length_toList] using h.first⟩

theorem parts_eq (h : Splits url scheme host resource) {first rest : List Char}
    (hsplit : Scan.splitOnce separator url.toList = some (first, rest)) :
    first = scheme.toList ∧ rest = host.toList ++ resource.toList := by
  rw [h.splitOnce, Option.some.injEq, Prod.mk.injEq] at hsplit
  exact ⟨hsplit.1.symm, hsplit.2.symm⟩

theorem takeWhile_eq (h : Splits url scheme host resource) :
    (host.toList ++ resource.toList).takeWhile (· != '/') = host.toList ∧
      (host.toList ++ resource.toList).dropWhile (· != '/') = resource.toList := by
  obtain ⟨path, rfl⟩ := h.rooted
  simpa using takeWhile_host h.plain path.toList

theorem host_ne_nil (h : Splits url scheme host resource) : host.toList ≠ [] := fun hnil => by
  have hpos := h.hostPos
  rw [String.toList_eq_nil_iff.1 hnil] at hpos
  exact absurd hpos (by decide)

/-- **There is one way to split a URL.** -/
theorem unique (h : Splits url scheme host resource) (h' : Splits url scheme' host' resource') :
    scheme = scheme' ∧ host = host' ∧ resource = resource' := by
  obtain ⟨hscheme, hrest⟩ := h'.parts_eq h.splitOnce
  obtain ⟨hhost, hresource⟩ := h.takeWhile_eq
  rw [hrest, h'.takeWhile_eq.1] at hhost
  rw [hrest, h'.takeWhile_eq.2] at hresource
  exact ⟨String.toList_inj.1 hscheme, String.toList_inj.1 hhost.symm, String.toList_inj.1 hresource.symm⟩

/-- **What is appended to a URL is appended to its resource.** -/
theorem append (h : Splits url scheme host resource) (query : String) :
    Splits (url ++ query) scheme host (resource ++ query) where
  joined := by rw [h.joined, String.append_assoc]
  named := h.named
  first := by
    have hsplit := Scan.splitOnce_append (by decide) h.splitOnce query.toList
    rw [← String.toList_append] at hsplit
    simpa [String.length_toList] using (splitOnce_iff_first.1 hsplit).2
  hostPos := h.hostPos
  hostFits := h.hostFits
  plain := h.plain
  rooted := by
    obtain ⟨path, rfl⟩ := h.rooted
    exact ⟨path ++ query, String.append_assoc⟩

end Splits

/-! ## How splitting ends -/

/-- What the splitting of a URL comes to, by what it finds first. -/
inductive Parsing (url : String) : Except UrlFault ImageUrl → Prop
  | tooLong (long : 2000 < url.utf8ByteSize) : Parsing url (.error .tooLong)
  | noScheme (none : Scan.splitOnce separator url.toList = none) : Parsing url (.error .noScheme)
  | emptyScheme {rest} (split : Scan.splitOnce separator url.toList = some ([], rest)) :
    Parsing url (.error .emptyScheme)
  | noResource {scheme rest} (split : Scan.splitOnce separator url.toList = some (scheme, rest)) (slash : '/' ∉ rest) :
    Parsing url (.error .noResource)
  | emptyHost {scheme path} (split : Scan.splitOnce separator url.toList = some (scheme, '/' :: path)) :
    Parsing url (.error .emptyHost)
  | hostTooLong {scheme host path} (split : Scan.splitOnce separator url.toList = some (scheme, host ++ '/' :: path))
    (plain : '/' ∉ host) (long : 128 < (String.ofList host).utf8ByteSize) : Parsing url (.error .hostTooLong)
  | ok {scheme u} (fits : url.utf8ByteSize ≤ 2000) (splits : Splits url scheme u.host.text u.resource.text) :
    Parsing url (.ok u)

theorem Splits.of_splitOnce {url : String} {scheme host path : List Char}
    (hsplit : Scan.splitOnce separator url.toList = some (scheme, host ++ '/' :: path)) (hscheme : scheme ≠ [])
    (hplain : '/' ∉ host) (hhost : host ≠ []) (hfits : (String.ofList host).utf8ByteSize ≤ 128) :
    Splits url (String.ofList scheme) (String.ofList host) (String.ofList ('/' :: path)) := by
  have hnothing {cs : List Char} (hcs : String.ofList cs = "") : cs = [] := by simpa using congrArg String.toList hcs
  obtain ⟨hurl, hfirst⟩ := splitOnce_iff_first.1 hsplit
  exact
    { joined := by rw [hurl, String.ofList_append, ← String.append_assoc]
      named := fun hempty => hscheme (hnothing hempty)
      first := by simpa using hfirst
      hostPos := Nat.pos_of_ne_zero fun hzero => hhost (hnothing (String.utf8ByteSize_eq_zero_iff.1 hzero))
      hostFits := hfits
      plain := by simpa using hplain
      rooted := ⟨String.ofList path, String.ofList_cons⟩ }

theorem Splits.resource_le {url scheme host resource : String} (h : Splits url scheme host resource) :
    resource.utf8ByteSize ≤ url.utf8ByteSize := by
  rw [h.joined, String.utf8ByteSize_append]
  exact Nat.le_add_left _ _

/-- **Every splitting ends in one of these ways.**  The resource always has room: it is no longer than the URL. -/
theorem parsing_parse (url : String) : Parsing url (parse url) := by
  unfold parse
  simp only [bind, Except.bind, pure, Except.pure, throw, throwThe, MonadExceptOf.throw]
  by_cases hlong : url.utf8ByteSize > maxUrlLength
  · rw [if_pos hlong]
    exact .tooLong hlong
  have hfits : url.utf8ByteSize ≤ 2000 := Nat.le_of_not_lt hlong
  rw [if_neg hlong]
  rcases hsplit : Scan.splitOnce [':', '/', '/'] url.toList with _ | ⟨scheme, rest⟩
  · exact .noScheme hsplit
  dsimp only
  by_cases hscheme : scheme = []
  · subst hscheme
    exact .emptyScheme hsplit
  rw [if_neg (by simpa using hscheme)]
  by_cases hslash : '/' ∈ rest
  · obtain ⟨host, path, rfl, hplain⟩ := List.eq_append_cons_of_mem hslash
    obtain ⟨htake, hdrop⟩ := takeWhile_host hplain path
    rw [if_neg (by simp), htake, hdrop]
    by_cases hhost : host = []
    · subst hhost
      exact .emptyHost hsplit
    rw [if_neg (by simpa using hhost)]
    rcases hroom : Bounded.ofText? 128 (String.ofList host) with _ | hostText
    · exact .hostTooLong hsplit hplain (Bounded.ofText?_eq_none.1 hroom)
    have hhostText := Bounded.ofText?_eq_some.1 hroom
    have hsplits := Splits.of_splitOnce hsplit hscheme hplain hhost (hhostText ▸ hostText.fits)
    dsimp only
    rcases hresource : Bounded.ofText? 2048 (String.ofList ('/' :: path)) with _ | resource
    · have hlarge := Bounded.ofText?_eq_none.1 hresource
      have hle := hsplits.resource_le
      omega
    · have hresourceText := Bounded.ofText?_eq_some.1 hresource
      rw [← hhostText, ← hresourceText] at hsplits
      exact .ok hfits hsplits
  · rw [if_pos (by simpa using hslash)]
    exact .noResource hsplit hslash

theorem Splits.exists_parse {url scheme host resource : String} (h : Splits url scheme host resource)
    (hfits : url.utf8ByteSize ≤ 2000) : ∃ u, parse url = .ok u ∧ u.host.text = host ∧ u.resource.text = resource := by
  obtain ⟨htake, hdrop⟩ := h.takeWhile_eq
  have hparsing := parsing_parse url
  generalize parse url = outcome at hparsing
  cases hparsing with
  | tooLong long => omega
  | noScheme none => simp [h.splitOnce] at none
  | emptyScheme split => exact absurd (String.toList_eq_nil_iff.1 (h.parts_eq split).1.symm) h.named
  | noResource split slash =>
    obtain ⟨path, rfl⟩ := h.rooted
    rw [(h.parts_eq split).2] at slash
    simp at slash
  | emptyHost split =>
    rw [← (h.parts_eq split).2, List.takeWhile_cons_of_neg (by simp)] at htake
    exact absurd htake.symm h.host_ne_nil
  | hostTooLong split plain long =>
    rw [← (h.parts_eq split).2, (takeWhile_host plain _).1] at htake
    rw [htake, String.ofList_toList] at long
    exact absurd h.hostFits (Nat.not_le.2 long)
  | @ok _ u fits splits =>
    obtain ⟨-, hhost, hresource⟩ := splits.unique h
    exact ⟨u, rfl, hhost, hresource⟩

theorem splits_of_parse {url : String} {u : ImageUrl} (h : parse url = .ok u) :
    url.utf8ByteSize ≤ 2000 ∧ ∃ scheme, Splits url scheme u.host.text u.resource.text := by
  have hparsing := h ▸ parsing_parse url
  cases hparsing with
  | ok fits splits => exact ⟨fits, _, splits⟩

/-- **A URL is accepted exactly if it splits and is not too long**, and is read as the host and the resource that it
splits into; there are no others.  What is appended to it is appended to its resource.  No resource is too long, and
neither is the URL of a decoded offer. -/
theorem splits_in_one_way (url : String) :
    ((∃ u, parse url = .ok u) ↔ url.utf8ByteSize ≤ 2000 ∧ ∃ scheme host resource, Splits url scheme host resource) ∧
    (∀ u, parse url = .ok u → ∃ scheme, Splits url scheme u.host.text u.resource.text) ∧
    (∀ scheme host resource scheme' host' resource', Splits url scheme host resource →
      Splits url scheme' host' resource' → scheme = scheme' ∧ host = host' ∧ resource = resource') ∧
    (∀ u query, parse url = .ok u → (url ++ query).utf8ByteSize ≤ 2000 →
      ∃ u', parse (url ++ query) = .ok u' ∧ u'.host = u.host ∧ u'.resource.text = u.resource.text ++ query) ∧
    (∀ fault, parse url = .error fault → fault.reason ≠ "resource too long") ∧
    ∀ payload o, Inbound.parse payload = .ok (.offer o) →
      ∀ fault, parse o.url.text = .error fault → fault.reason ≠ "URL too long" := by
  refine ⟨⟨?_, ?_⟩, fun u h => (splits_of_parse h).2, fun _ _ _ _ _ _ h h' => h.unique h', fun u query h hfits => ?_,
    fun fault h => ?_, fun payload o _ fault h => ?_⟩
  · rintro ⟨u, h⟩
    obtain ⟨hfits, scheme, hsplits⟩ := splits_of_parse h
    exact ⟨hfits, scheme, _, _, hsplits⟩
  · rintro ⟨hfits, scheme, host, resource, hsplits⟩
    obtain ⟨u, h, -⟩ := hsplits.exists_parse hfits
    exact ⟨u, h⟩
  · obtain ⟨-, scheme, hsplits⟩ := splits_of_parse h
    obtain ⟨u', h', hhost, hresource⟩ := (hsplits.append query).exists_parse hfits
    exact ⟨u', h', Bounded.text_inj.1 hhost, hresource⟩
  · have hparsing := h ▸ parsing_parse url
    cases hparsing <;> decide
  · have hparsing := h ▸ parsing_parse o.url.text
    cases hparsing with
    | tooLong long => exact absurd o.url.fits (Nat.not_le.2 long)
    | noScheme | emptyScheme | noResource | emptyHost | hostTooLong => decide

theorem portHost_fits : "h:1".utf8ByteSize ≤ 128 := by decide

theorem rootResource_fits : "/".utf8ByteSize ≤ 2048 := by decide

def portRoot : ImageUrl := ⟨⟨"h:1", portHost_fits⟩, ⟨"/", rootResource_fits⟩⟩

theorem portRoot_splits : Splits "a://h:1/" "a" "h:1" "/" where
  joined := rfl
  named := by decide
  first := (splitOnce_iff_first.1 (rfl : Scan.splitOnce separator "a://h:1/".toList = some (['a'], "h:1/".toList))).2
  hostPos := by decide
  hostFits := by decide
  plain := by decide
  rooted := ⟨"", rfl⟩

def hostless : Bytes := Bytes.ofText "\x7b\"ct\":1,\"sw\":\"2\",\"urls\":[\x7b\"url\":\"a://\"\x7d]\x7d"

def hostlessOffer : Offer :=
  { url := ⟨"a://", by decide⟩, fileName := Bounded.empty, version := ⟨"2", by decide⟩, ackId := none, digest := none }

theorem portRoot_splits_in_one_way :
    parse "a://h:1/" = .ok portRoot ∧ Splits "a://h:1/" "a" "h:1" "/" ∧
      (∀ scheme host resource, Splits "a://h:1/" scheme host resource → "a" = scheme ∧ "h:1" = host ∧ "/" = resource) ∧
      ("a://h:1/" ++ "?u=c://d/").utf8ByteSize ≤ 2000 ∧
      (∃ u, parse ("a://h:1/" ++ "?u=c://d/") = .ok u ∧ u.host = portRoot.host ∧ u.resource.text = "/?u=c://d/") ∧
      Inbound.parse hostless = .ok (.offer hostlessOffer) ∧ parse "a://" = .error .noResource ∧
      UrlFault.noResource.reason ≠ "resource too long" ∧ UrlFault.noResource.reason ≠ "URL too long" := by
  have hparse : parse "a://h:1/" = .ok portRoot := rfl
  have hfits : ("a://h:1/" ++ "?u=c://d/").utf8ByteSize ≤ 2000 := by decide
  have hoffer : Inbound.parse hostless = .ok (.offer hostlessOffer) := rfl
  have hrefused : parse "a://" = .error .noResource := rfl
  obtain ⟨-, -, hunique, happend, -, -⟩ := splits_in_one_way "a://h:1/"
  obtain ⟨-, -, -, -, hroom, hoffered⟩ := splits_in_one_way "a://"
  exact ⟨hparse, portRoot_splits, fun _ _ _ h => hunique _ _ _ _ _ _ portRoot_splits h, hfits,
    happend portRoot _ hparse hfits, hoffer, hrefused, hroom _ hrefused, hoffered _ _ hoffer _ hrefused⟩

end Firmware.ImageUrl
