import Firmware.Proofs.Framing
/-!
# Leftover — where a session stands between two calls

A session stands at a boundary if the octets read so far are whole responses, or all there are.  Answers that succeed
leave it at one, and a broken session is given up.  An answer that fails for good does neither: the session goes on
behind a head whose body nobody read, or in the middle of a head that was too large (`leaves_boundary`), and there the
next call looks for a head.  A body that does not fit into its buffer is enough (`oversized_leaves_body`).
-/
namespace Firmware.Http

/-! ## Boundaries -/

/-- A complete response: a head, and a body as long as the head says. -/
inductive IsWhole : Bytes → Prop
  | mk {head body : Bytes} {parsed : Head} {length : UInt64} (hhead : IsHead head) (hparsed : headOf head = .ok parsed)
    (hlength : parsed.contentLength = some length) (hbody : body.length = length.toNat) : IsWhole (head ++ body)

/-- Between two responses, or at the end of the stream. -/
def Boundary (stream unread : Bytes) : Prop :=
  unread = [] ∨ ∃ responses : List Bytes, (∀ octets ∈ responses, IsWhole octets) ∧ stream = responses.flatten ++ unread

theorem Boundary.response {stream octets rest : Bytes} (h : Boundary stream (octets ++ rest))
    (hwhole : IsWhole octets) : Boundary stream rest := by
  rcases h with hnil | ⟨responses, hresponses, hstream⟩
  · exact .inl (List.append_eq_nil_iff.1 hnil).2
  · refine .inr ⟨responses ++ [octets], fun response hmem => ?_, by simp [hstream]⟩
    rcases List.mem_append.1 hmem with hmem | hmem
    · exact hresponses response hmem
    · exact List.mem_singleton.1 hmem ▸ hwhole

theorem flatten_ne_head {head : Bytes} (hhead : IsHead head) {parsed : Head} (hparsed : headOf head = .ok parsed)
    {length : UInt64} (hlength : parsed.contentLength = some length) (hne : length ≠ 0)
    {responses : List Bytes} (h : ∀ octets ∈ responses, IsWhole octets) : responses.flatten ≠ head := by
  intro hflatten
  cases responses with
  | nil => exact hhead.ne_nil hflatten.symm
  | cons octets responses =>
    rw [List.flatten_cons] at hflatten
    have hfirst := h octets List.mem_cons_self
    cases hfirst with
    | @mk first body parsed' length' hfirst hparsed' hlength' hbody =>
      have hsplit : first ++ (body ++ responses.flatten) = head ++ [] := by
        rw [← List.append_assoc, hflatten, List.append_nil]
      obtain rfl := hfirst.unique hhead hsplit
      rw [hparsed] at hparsed'
      obtain rfl := Except.ok.inj hparsed'
      rw [hlength] at hlength'
      obtain rfl := Option.some.inj hlength'
      rw [(List.append_eq_nil_iff.1 (List.append_cancel_left hsplit)).1] at hbody
      exact hne (UInt64.toNat_inj.1 hbody.symm)

/-! ## One call -/

/-- A head, or more octets than a head may have: no head and body. -/
def IsFragment (front : Bytes) : Prop := IsHead front ∨ maxHeadLength < front.length

theorem IsFragment.ne_nil {front : Bytes} (h : IsFragment front) : front ≠ [] := by
  rcases h with h | h
  · exact h.ne_nil
  · rintro rfl
    exact absurd h (by decide)

/-- What a call can answer, and what it leaves of the stream. -/
inductive Reading (unread : Bytes) : Except FetchError RangeAnswer → Bytes → Prop
  | whole {octets rest : Bytes} {answered : RangeAnswer} (hstream : unread = octets ++ rest) (hwhole : IsWhole octets) :
    Reading unread (.ok answered) rest
  | ended {answered : RangeAnswer} : Reading unread (.ok answered) []
  | broken {rest : Bytes} : Reading unread (.error .network) rest
  | failed {front rest : Bytes} {e : FetchError} (hstream : unread = front ++ rest) (hfront : IsFragment front)
      (hfatal : e.disposition = .fatal) : Reading unread (.error e) rest

namespace Head

theorem fatal_of_addField {head : Head} {line : List Char} {e : FetchError} (h : addField head line = .error e) :
    e.disposition = .fatal := by
  unfold addField at h
  split at h
  · cases h
    rfl
  dsimp only at h
  split at h
  · split at h
    · cases h
    · cases h
      rfl
  split at h
  · split at h
    · cases h
    · cases h
      rfl
  · cases h

theorem fatal_of_parse {text : List Char} {e : FetchError} (h : parse text = .error e) : e.disposition = .fatal := by
  have hfold {lines : List (List Char)} {head : Head} (h : lines.foldlM addField head = .error e) :
      e.disposition = .fatal := by
    induction lines generalizing head with
    | nil => cases h
    | cons line lines ih =>
      rw [List.foldlM_cons] at h
      cases hline : addField head line with
      | error e' =>
        rw [hline] at h
        cases h
        exact fatal_of_addField hline
      | ok head' =>
        rw [hline] at h
        exact ih h
  unfold parse at h
  repeat' split at h
  · cases h; rfl
  · cases h; rfl
  · exact hfold h

end Head

theorem fatal_of_headOf {octets : Bytes} {e : FetchError} (h : headOf octets = .error e) : e.disposition = .fatal := by
  unfold headOf at h
  split at h
  · exact Head.fatal_of_parse h
  · cases h; rfl

namespace Client

theorem reading_readBody {head : Bytes} {parsed : Head} (hhead : IsHead head) (hparsed : headOf head = .ok parsed)
    (buffer rest : Bytes) :
    Reading (head ++ rest) (readBody parsed buffer rest).1.answer (readBody parsed buffer rest).2 := by
  cases hlength : parsed.contentLength with
  | none =>
    rw [readBody, hlength]
    exact .failed rfl (.inl hhead) rfl
  | some length =>
    simp only [readBody, hlength]
    have hstream : head ++ rest = head ++ rest.take length.toNat ++ rest.drop length.toNat := by
      rw [List.append_assoc, List.take_append_drop]
    have hwhole (henough : ¬ rest.length < length.toNat) : IsWhole (head ++ rest.take length.toNat) :=
      .mk hhead hparsed hlength (by rw [List.length_take]; omega)
    by_cases hstatus : 400 ≤ parsed.status
    · rw [if_pos hstatus]
      by_cases henough : rest.length < length.toNat
      · dsimp only
        rw [List.drop_of_length_le (Nat.le_of_lt henough)]
        exact .ended
      · exact .whole hstream (hwhole henough)
    rw [if_neg hstatus]
    by_cases hroom : buffer.length < length.toNat
    · rw [if_pos hroom]
      exact .failed rfl (.inl hhead) rfl
    rw [if_neg hroom]
    by_cases henough : rest.length < length.toNat
    · rw [if_pos henough]
      exact .broken
    · rw [if_neg henough]
      exact .whole hstream (hwhole henough)

/-- **A call reads a whole response or fails.** -/
theorem reading_readResponse (buffer unread : Bytes) :
    Reading unread (readResponse buffer unread).1.answer (readResponse buffer unread).2 := by
  have h := headReading_readHead unread
  unfold readResponse
  generalize readHead unread = result at h ⊢
  cases h with
  | @complete head rest hstream hhead hfits =>
    rw [List.nil_append, hstream]
    cases hparsed : headOf head with
    | ok parsed => exact reading_readBody hhead hparsed buffer rest
    | error e => exact .failed rfl (.inl hhead) (fatal_of_headOf hparsed)
  | tooLarge hstream hlarge => exact .failed hstream (.inr hlarge) rfl
  | broken hfits => exact .broken

/-! ## Many calls -/

variable {c : Client} {session : Session} {stream : Bytes}

def AtBoundary (stream : Bytes) (c : Client) : Prop :=
  ∀ session, c.session = some session → Boundary stream session.unread

/-- **A call that does not fail for good keeps a session at a boundary, or gives it up.** -/
theorem AtBoundary.fetch {ask : Ask} (h : AtBoundary stream c)
    (hcalm : ∀ e, (c.fetch ask.resource ask.range ask.buffer).1.answer = .error e → e.disposition = .retryable) :
    AtBoundary stream (c.fetch ask.resource ask.range ask.buffer).2 := by
  intro left hleft
  cases hsession : c.session with
  | none =>
    simp only [Client.fetch, hsession] at hleft
    cases hleft
  | some session =>
    have hstand := h session hsession
    have hreading := reading_readResponse ask.buffer session.unread
    have hbroken := session_fetch_broken hsession ask
    have hkept := session_fetch_kept hsession ask
    rw [answered_fetch hsession] at hcalm
    generalize (readResponse ask.buffer session.unread).1.answer = answer at hreading hcalm hbroken hkept
    generalize (readResponse ask.buffer session.unread).2 = rest at hreading hkept
    cases hreading with
    | whole hstream hwhole =>
      rw [hkept (by simp)] at hleft
      cases hleft
      rw [hstream] at hstand
      exact hstand.response hwhole
    | ended =>
      rw [hkept (by simp)] at hleft
      cases hleft
      exact .inl rfl
    | broken =>
      rw [hbroken rfl] at hleft
      cases hleft
    | failed hstream hfront hfatal =>
      rw [hcalm _ rfl] at hfatal
      cases hfatal

theorem AtBoundary.fetchAll {asks : List Ask} (h : AtBoundary stream c)
    (hcalm : ∀ fetched ∈ (c.fetchAll asks).1, ∀ e, fetched.answer = .error e → e.disposition = .retryable) :
    AtBoundary stream (c.fetchAll asks).2 := by
  induction asks generalizing c with
  | nil => exact h
  | cons ask asks ih =>
    obtain ⟨hfirst, hmore⟩ := List.forall_mem_cons.1 hcalm
    exact ih (h.fetch hfirst) hmore

theorem left_of_fatal {ask : Ask} {e : FetchError}
    (hanswer : (c.fetch ask.resource ask.range ask.buffer).1.answer = .error e) (hfatal : e.disposition = .fatal) :
    ∃ session front left, c.session = some session ∧
      (c.fetch ask.resource ask.range ask.buffer).2.session = some left ∧
      session.unread = front ++ left.unread ∧ IsFragment front := by
  cases hsession : c.session with
  | none =>
    simp only [Client.fetch, hsession] at hanswer
    cases hanswer
    cases hfatal
  | some session =>
    have hreading := reading_readResponse ask.buffer session.unread
    have hkept := session_fetch_kept hsession ask
    rw [answered_fetch hsession] at hanswer
    rw [hanswer] at hreading hkept
    cases hreading with
    | broken => cases hfatal
    | failed hstream hfront hfatal =>
      have hne : Except.error e ≠ (Except.error .network : Except FetchError RangeAnswer) := by
        rintro h
        cases h
        cases hfatal
      exact ⟨session, _, _, rfl, hkept hne, hstream, hfront⟩

/-- **What a session leaves behind.**  As long as no answer fails for good, the session is at a boundary of its stream
or given up.  The first that does leaves it open, and what stands unread begins behind whole responses and a part of
another. -/
theorem leaves_boundary (hsession : c.session = some session) {asks : List Ask}
    (hcalm : ∀ fetched ∈ (c.fetchAll asks).1, ∀ e, fetched.answer = .error e → e.disposition = .retryable) :
    AtBoundary session.unread (c.fetchAll asks).2 ∧
      ∀ (ask : Ask) (e : FetchError),
        ((c.fetchAll asks).2.fetch ask.resource ask.range ask.buffer).1.answer = .error e → e.disposition = .fatal →
        ∃ (left : Session) (responses : List Bytes) (front : Bytes),
          ((c.fetchAll asks).2.fetch ask.resource ask.range ask.buffer).2.session = some left ∧
            (∀ octets ∈ responses, IsWhole octets) ∧ IsFragment front ∧
            session.unread = responses.flatten ++ front ++ left.unread := by
  have hstart : AtBoundary session.unread c := fun first hfirst => by
    obtain rfl : session = first := Option.some.inj (hsession.symm.trans hfirst)
    exact .inr ⟨[], by simp, rfl⟩
  have hstand := hstart.fetchAll hcalm
  refine ⟨hstand, fun ask e hanswer hfatal => ?_⟩
  obtain ⟨before, front, left, hbefore, hleft, hunread, hfront⟩ := left_of_fatal hanswer hfatal
  rcases hstand before hbefore with hnil | ⟨responses, hresponses, hstream⟩
  · rw [hnil] at hunread
    exact absurd (List.append_eq_nil_iff.1 hunread.symm).1 hfront.ne_nil
  · exact ⟨left, responses, front, hleft, hresponses, hfront, by rw [hstream, hunread, List.append_assoc]⟩

/-! ## A body that does not fit -/

def oversizedHead : Bytes := Bytes.ofText "HTTP/1.1 206\r\nContent-Length: 35\r\n\r\n"

/-- 35 octets that spell a response themselves. -/
def oversizedBody : Bytes := Bytes.ofText "HTTP/1.1 200\r\nContent-Length: 0\r\n\r\n"

theorem oversizedHead_isHead : IsHead oversizedHead := by
  have hstatus : 0x0A ∉ Bytes.ofText "HTTP/1.1 206\r" := by decide +kernel
  have hlength : 0x0A ∉ Bytes.ofText "Content-Length: 35\r" := by decide +kernel
  exact .line hstatus (by decide +kernel) (.line hlength (by decide +kernel) .blank)

theorem oversizedHead_fits : oversizedHead.length ≤ maxHeadLength := by decide +kernel

theorem headOf_oversizedHead : headOf oversizedHead = .ok { status := 206, contentLength := some 35 } := rfl

def refusal : Bytes := Bytes.ofText "HTTP/1.1 404\r\nContent-Length: 2\r\n\r\nno"

def cramped : Ask := ⟨"/fw.bin", ⟨0, 0⟩, [0]⟩

def refused : Client := { session := some (.waiting (refusal ++ (oversizedHead ++ oversizedBody))) }

theorem refused_leaves_boundary :
    refused.session = some (.waiting (refusal ++ (oversizedHead ++ oversizedBody))) ∧
      (∀ fetched ∈ (refused.fetchAll [cramped]).1, ∀ e, fetched.answer = .error e → e.disposition = .retryable) ∧
      ((refused.fetchAll [cramped]).2.fetch cramped.resource cramped.range cramped.buffer).1.answer =
        .error (.bodyTooLarge 1) ∧
      AtBoundary (refusal ++ (oversizedHead ++ oversizedBody)) (refused.fetchAll [cramped]).2 ∧
      ∃ (left : Session) (responses : List Bytes) (front : Bytes),
        ((refused.fetchAll [cramped]).2.fetch cramped.resource cramped.range cramped.buffer).2.session = some left ∧
          (∀ octets ∈ responses, IsWhole octets) ∧ IsFragment front ∧
          refusal ++ (oversizedHead ++ oversizedBody) = responses.flatten ++ front ++ left.unread := by
  have hok : ((refused.fetchAll [cramped]).1.all fun fetched => fetched.answer.isOk) = true := by decide +kernel
  have hcalm : ∀ fetched ∈ (refused.fetchAll [cramped]).1, ∀ e, fetched.answer = .error e →
      e.disposition = .retryable := by
    intro fetched hmem e herror
    have hfetched := List.all_eq_true.1 hok fetched hmem
    rw [herror] at hfetched
    cases hfetched
  have hsession : (refused.fetchAll [cramped]).2.session = some (.waiting (oversizedHead ++ oversizedBody)) := by
    decide +kernel
  have hanswer : ((refused.fetchAll [cramped]).2.fetch cramped.resource cramped.range cramped.buffer).1.answer =
      .error (.bodyTooLarge 1) := by
    rw [answered_fetch hsession cramped, readResponse, Session.waiting,
      readHead_of_isHead oversizedHead_isHead oversizedHead_fits, headOf_oversizedHead]
    rfl
  obtain ⟨hboundary, hfragment⟩ := leaves_boundary rfl hcalm
  exact ⟨rfl, hcalm, hanswer, hboundary, hfragment cramped _ hanswer rfl⟩

def overrun : Client := { session := some (.waiting (oversizedHead ++ oversizedBody)) }

/-- What does not fit into a buffer stays unread. -/
theorem oversized_leaves_body :
    ¬ ∀ (c : Client) (session left : Session) (asks : List Ask), c.session = some session →
      (c.fetchAll asks).2.session = some left → Boundary session.unread left.unread := fun h => by
  have hleft : (overrun.fetchAll [cramped]).2.session = some (.waiting oversizedBody) := by decide +kernel
  rcases h overrun _ _ [cramped] rfl hleft with hnil | ⟨responses, hresponses, hstream⟩
  · exact absurd hnil (by decide +kernel)
  · have hflatten : oversizedHead = responses.flatten := List.append_cancel_right hstream
    exact flatten_ne_head oversizedHead_isHead headOf_oversizedHead rfl (by decide) hresponses
      hflatten.symm

end Client
end Firmware.Http
