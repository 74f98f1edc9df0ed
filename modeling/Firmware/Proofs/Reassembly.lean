import Firmware.Mqtt.Reassembly
import Mathlib.Data.List.Infix
/-!
# Reassembly — a message is handed out exactly when its pieces complete it

What a reassembly answers to a piece depends on the pieces since the last one at offset zero, and on them alone.
`Completes` says when these make up a message, without the state that a reassembly keeps.  The main statements are that
a message is handed out exactly then, and that a message which is cut into blocks and sent in order is handed out once,
with the block that completes it, wherever the reassembly stood before.
-/
namespace Firmware

structure Piece where
  offset : Nat
  total : Nat
  data : Bytes
deriving DecidableEq, Repr

namespace Piece

def content (pieces : List Piece) : Bytes := pieces.flatMap Piece.data

theorem content_snoc (pieces : List Piece) (p : Piece) : content (pieces ++ [p]) = content pieces ++ p.data := by
  simp [content]

/-- The first piece is at offset zero and no other is. -/
def Begins (message : List Piece) : Prop :=
  ∃ first rest, message = first :: rest ∧ first.offset = 0 ∧ ∀ p ∈ rest, p.offset ≠ 0

/-- Every piece declares `total` octets and stands where the pieces before it end. -/
structure InSequence (total : Nat) (message : List Piece) : Prop where
  declared : ∀ p ∈ message, p.total = total
  offsets : ∀ before p after, message = before ++ p :: after → p.offset = (content before).length

/-- The pieces make up a message of `total` octets, and no fewer of them do. -/
structure Completes (total : Nat) (message : List Piece) : Prop where
  begins : Begins message
  inSequence : InSequence total message
  fits : total ≤ maxPayload
  whole : (content message).length = total
  notBefore : ∀ before after, message = before ++ after → before ≠ [] → after ≠ [] → (content before).length ≠ total

/-- The pieces are the first of a message of `total` octets, which needs more of them. -/
structure Owes (total : Nat) (message : List Piece) : Prop where
  begins : Begins message
  inSequence : InSequence total message
  fits : total ≤ maxPayload
  short : (content message).length < total

/-! ## One more piece -/

theorem begins_snoc_of_eq {message : List Piece} {p : Piece} (hp : p.offset = 0) :
    Begins (message ++ [p]) ↔ message = [] := by
  constructor
  · rintro ⟨first, rest, hmessage, -, hrest⟩
    cases message with
    | nil => rfl
    | cons q message =>
      rw [List.cons_append, List.cons.injEq] at hmessage
      exact absurd hp (hrest p (by simp [← hmessage.2]))
  · rintro rfl
    exact ⟨p, [], rfl, hp, by simp⟩

theorem begins_snoc_of_ne {message : List Piece} {p : Piece} (hp : p.offset ≠ 0) :
    Begins (message ++ [p]) ↔ Begins message := by
  constructor
  · rintro ⟨first, rest, hmessage, hfirst, hrest⟩
    cases message with
    | nil =>
      obtain ⟨rfl, -⟩ := List.cons.inj hmessage
      exact absurd hfirst hp
    | cons q message =>
      obtain ⟨rfl, rfl⟩ := List.cons.inj hmessage
      exact ⟨q, message, rfl, hfirst, fun p' hp' => hrest p' (by simp [hp'])⟩
  · rintro ⟨first, rest, rfl, hfirst, hrest⟩
    refine ⟨first, rest ++ [p], rfl, hfirst, fun p' hp' => ?_⟩
    rcases List.mem_append.1 hp' with hp' | hp'
    · exact hrest p' hp'
    · rw [List.mem_singleton.1 hp']
      exact hp

theorem inSequence_nil (total : Nat) : InSequence total [] where
  declared := by simp
  offsets before p after h := by simp at h

theorem inSequence_snoc {total : Nat} {message : List Piece} {p : Piece} :
    InSequence total (message ++ [p]) ↔
      InSequence total message ∧ p.total = total ∧ p.offset = (content message).length := by
  constructor
  · intro h
    refine ⟨⟨fun q hq => h.declared q (by simp [hq]), fun before q after hs => ?_⟩, h.declared p (by simp),
      h.offsets message p [] rfl⟩
    exact h.offsets before q (after ++ [p]) (by simp [hs])
  · rintro ⟨h, htotal, hoffset⟩
    refine ⟨fun q hq => ?_, fun before q after hs => ?_⟩
    · rcases List.mem_append.1 hq with hq | hq
      · exact h.declared q hq
      · rw [List.mem_singleton.1 hq]
        exact htotal
    · rcases List.eq_nil_or_concat after with rfl | ⟨after, q', rfl⟩
      · obtain ⟨rfl, hq⟩ := List.append_inj' hs rfl
        rw [← List.singleton_inj.1 hq]
        exact hoffset
      · have hs' : message ++ [p] = (before ++ q :: after) ++ [q'] := by simpa using hs
        exact h.offsets before q after (List.append_inj' hs' rfl).1

theorem length_content_le {before after message : List Piece} (h : message = before ++ after) :
    (content before).length ≤ (content message).length := by
  rw [h, content, content, List.flatMap_append, List.length_append]
  exact Nat.le_add_right _ _

theorem completes_snoc {total : Nat} {message : List Piece} {p : Piece} :
    Completes total (message ++ [p]) ↔ Begins (message ++ [p]) ∧ InSequence total (message ++ [p]) ∧
      total ≤ maxPayload ∧ (content message ++ p.data).length = total ∧
      (message ≠ [] → (content message).length < total) := by
  constructor
  · intro h
    have hwhole := h.whole
    rw [content_snoc] at hwhole
    refine ⟨h.begins, h.inSequence, h.fits, hwhole, fun hne => ?_⟩
    have hnot := h.notBefore message [p] rfl hne (by simp)
    rw [List.length_append] at hwhole
    omega
  · rintro ⟨hbegins, hseq, hfits, hwhole, hshort⟩
    refine ⟨hbegins, hseq, hfits, by rw [content_snoc, hwhole], fun before after hs hbefore hafter => ?_⟩
    obtain ⟨after, q, rfl⟩ := (List.eq_nil_or_concat after).resolve_left hafter
    have hs' : message ++ [p] = (before ++ after) ++ [q] := by simpa using hs
    obtain ⟨hmessage, -⟩ := List.append_inj' hs' rfl
    have hle := length_content_le hmessage
    have := hshort (by rw [hmessage]; simp [hbefore])
    omega

theorem owes_snoc {total : Nat} {message : List Piece} {p : Piece} :
    Owes total (message ++ [p]) ↔ Begins (message ++ [p]) ∧ InSequence total (message ++ [p]) ∧ total ≤ maxPayload ∧
      (content message ++ p.data).length < total := by
  rw [← content_snoc]
  exact ⟨fun h => ⟨h.begins, h.inSequence, h.fits, h.short⟩, fun ⟨h₁, h₂, h₃, h₄⟩ => ⟨h₁, h₂, h₃, h₄⟩⟩

/-! ## The pieces since the last start -/

theorem Begins.unique {calls message message' : List Piece} (h : Begins message) (h' : Begins message')
    (hs : message <:+ calls) (hs' : message' <:+ calls) : message = message' := by
  have longer : ∀ {short long : List Piece}, Begins short → Begins long → short <:+ long → short = long := by
    rintro _ _ ⟨first, rest, rfl, hfirst, -⟩ ⟨first', rest', rfl, -, hrest'⟩ ⟨front, hfront⟩
    cases front with
    | nil => exact hfront
    | cons q front =>
      obtain ⟨-, rfl⟩ := List.cons.inj hfront
      exact absurd hfirst (hrest' first (by simp))
  rcases List.suffix_or_suffix_of_suffix hs hs' with hle | hle
  · exact longer h h' hle
  · exact (longer h' h hle).symm

theorem Begins.ne_nil {message : List Piece} (h : Begins message) : message ≠ [] := by
  obtain ⟨first, rest, rfl, -, -⟩ := h
  simp

theorem InSequence.total_unique {total total' : Nat} {message : List Piece} (h : InSequence total message)
    (h' : InSequence total' message) (hne : message ≠ []) : total = total' := by
  obtain ⟨p, rest, rfl⟩ := List.exists_cons_of_ne_nil hne
  rw [← h.declared p (by simp), ← h'.declared p (by simp)]

/-- After `calls`, the piece `p` goes on with a message of `total` octets whose pieces so far are `message`. -/
structure Continues (calls message : List Piece) (total : Nat) (p : Piece) : Prop where
  suffix : message <:+ calls
  begins : Begins (message ++ [p])
  inSequence : InSequence total (message ++ [p])
  fits : total ≤ maxPayload
  short : message ≠ [] → (content message).length < total

variable {calls message : List Piece} {total : Nat} {p : Piece} {m : Bytes}

theorem Continues.unique {message' : List Piece} {total' : Nat} (h : Continues calls message total p)
    (h' : Continues calls message' total' p) : message = message' ∧ total = total' := by
  have hs : message ++ [p] <:+ calls ++ [p] := List.suffix_append_self_iff.2 h.suffix
  have hs' : message' ++ [p] <:+ calls ++ [p] := List.suffix_append_self_iff.2 h'.suffix
  have hall : message ++ [p] = message' ++ [p] := h.begins.unique h'.begins hs hs'
  have htotal : total = total' := h.inSequence.total_unique (hall ▸ h'.inSequence) (by simp)
  exact ⟨List.append_cancel_right hall, htotal⟩

theorem completed_iff : (∃ message', message' <:+ calls ++ [p] ∧ Completes total message' ∧ m = content message') ↔
    ∃ message, Continues calls message total p ∧ (content message ++ p.data).length = total ∧
      m = content message ++ p.data := by
  constructor
  · rintro ⟨message', hsuffix, h, rfl⟩
    rcases List.suffix_concat_iff.1 hsuffix with rfl | ⟨message, rfl, hs⟩
    · exact absurd rfl h.begins.ne_nil
    · obtain ⟨hbegins, hseq, hfits, hwhole, hshort⟩ := completes_snoc.1 h
      exact ⟨message, ⟨hs, hbegins, hseq, hfits, hshort⟩, hwhole, content_snoc message p⟩
  · rintro ⟨message, h, hwhole, rfl⟩
    exact ⟨message ++ [p], List.suffix_append_self_iff.2 h.suffix,
      completes_snoc.2 ⟨h.begins, h.inSequence, h.fits, hwhole, h.short⟩, (content_snoc message p).symm⟩

theorem owed_iff {message' : List Piece} : (message' <:+ calls ++ [p] ∧ Owes total message') ↔
    ∃ message, message' = message ++ [p] ∧ Continues calls message total p ∧
      (content message ++ p.data).length < total := by
  constructor
  · rintro ⟨hsuffix, h⟩
    rcases List.suffix_concat_iff.1 hsuffix with rfl | ⟨message, rfl, hs⟩
    · exact absurd rfl h.begins.ne_nil
    · obtain ⟨hbegins, hseq, hfits, hshort⟩ := owes_snoc.1 h
      refine ⟨message, rfl, ⟨hs, hbegins, hseq, hfits, fun _ => ?_⟩, hshort⟩
      rw [List.length_append] at hshort
      omega
  · rintro ⟨message, rfl, h, hshort⟩
    exact ⟨List.suffix_append_self_iff.2 h.suffix, owes_snoc.2 ⟨h.begins, h.inSequence, h.fits, hshort⟩⟩

end Piece

namespace Reassembly

open Piece (content Begins InSequence Completes Owes Continues)

/-! ## One call -/

/-- Where a reassembly stands after `calls`: in the message that was begun last, if that one owes more. -/
inductive Stands (calls : List Piece) : Reassembly → Prop where
  | underway {message : List Piece} {total : Nat} (suffix : message <:+ calls) (owes : Owes total message) :
    Stands calls ⟨content message, some total⟩
  | idle (none : ∀ message total, message <:+ calls → ¬ Owes total message) : Stands calls {}

def settled (received : Bytes) (total : Nat) : Option Bytes × Reassembly :=
  if total < received.length then (none, {})
  else if received.length < total then (none, ⟨received, some total⟩)
  else (some received, {})

theorem extend_of_eq (received : Bytes) {data : Bytes} {total : Nat} (h : total ≤ maxPayload) :
    extend ⟨received, some total⟩ received.length total data = settled (received ++ data) total := by
  have hover : (maxPayload < (received ++ data).length ∨ total < (received ++ data).length) ↔
      total < (received ++ data).length := by omega
  unfold extend settled
  rw [if_neg (by simp)]
  simp only [hover]

theorem push_zero (r : Reassembly) {total : Nat} (h : total ≤ maxPayload) (data : Bytes) :
    r.push 0 total data = settled data total := by
  unfold push
  rw [if_pos rfl, if_neg (Nat.not_lt.2 h)]
  exact extend_of_eq [] h

theorem extend_of_ne {r : Reassembly} {offset total : Nat} (h : r.total ≠ some total ∨ offset ≠ r.received.length)
    (data : Bytes) : r.extend offset total data = (none, {}) := by
  unfold extend
  rw [if_pos h]

variable {calls : List Piece} {r : Reassembly}

/-- **A piece goes on with the message that was begun last, or it is dropped.** -/
theorem Stands.push (h : Stands calls r) (p : Piece) :
    (∃ message, Continues calls message p.total p ∧
        r.push p.offset p.total p.data = settled (content message ++ p.data) p.total) ∨
      ((∀ message total, ¬ Continues calls message total p) ∧ r.push p.offset p.total p.data = (none, {})) := by
  by_cases hp : p.offset = 0
  · -- the piece starts over, wherever the reassembly stands
    have hbegins : Begins ([] ++ [p]) := (Piece.begins_snoc_of_eq hp).2 rfl
    by_cases hfits : p.total ≤ maxPayload
    · refine .inl ⟨[], ⟨List.nil_suffix, hbegins, ?_, hfits, fun hne => absurd rfl hne⟩, ?_⟩
      · exact Piece.inSequence_snoc.2 ⟨Piece.inSequence_nil _, rfl, hp⟩
      · rw [hp]
        exact push_zero r hfits p.data
    · refine .inr ⟨fun message total hc => ?_, ?_⟩
      · rw [(hc.inSequence.declared p (by simp))] at hfits
        exact hfits hc.fits
      · unfold Reassembly.push
        rw [if_pos hp, if_pos (Nat.not_le.1 hfits)]
  · have hpush : r.push p.offset p.total p.data = r.extend p.offset p.total p.data := by
      unfold Reassembly.push
      rw [if_neg hp]
    rw [hpush]
    cases h with
    | @underway message total hs howes =>
      by_cases hnext : p.total = total ∧ p.offset = (content message).length
      · obtain ⟨rfl, hoffset⟩ := hnext
        refine .inl ⟨message, ⟨hs, (Piece.begins_snoc_of_ne hp).2 howes.begins,
          Piece.inSequence_snoc.2 ⟨howes.inSequence, rfl, hoffset⟩, howes.fits, fun _ => howes.short⟩, ?_⟩
        rw [hoffset]
        exact extend_of_eq _ howes.fits
      · refine .inr ⟨fun message' total' hc => hnext ?_, extend_of_ne ?_ _⟩
        · obtain ⟨hseq, htotal, hoffset⟩ := Piece.inSequence_snoc.1 hc.inSequence
          have hmessage : message' = message :=
            ((Piece.begins_snoc_of_ne hp).1 hc.begins).unique howes.begins hc.suffix hs
          subst hmessage
          exact ⟨htotal.trans (hseq.total_unique howes.inSequence howes.begins.ne_nil), hoffset⟩
        · by_cases htotal : p.total = total
          · exact .inr fun hoffset => hnext ⟨htotal, hoffset⟩
          · exact .inl fun hsome => htotal (Option.some.inj hsome).symm
    | idle hnone =>
      refine .inr ⟨fun message total hc => ?_, extend_of_ne (.inl (by simp)) _⟩
      have hbegins := (Piece.begins_snoc_of_ne hp).1 hc.begins
      exact hnone message total hc.suffix
        ⟨hbegins, (Piece.inSequence_snoc.1 hc.inSequence).1, hc.fits, hc.short hbegins.ne_nil⟩

/-- **One call**: it hands out the message that it completes, and leaves what that message still owes. -/
theorem Stands.step (h : Stands calls r) (p : Piece) :
    (∀ m, (r.push p.offset p.total p.data).1 = some m ↔
        ∃ total message, message <:+ calls ++ [p] ∧ Completes total message ∧ m = content message) ∧
      Stands (calls ++ [p]) (r.push p.offset p.total p.data).2 := by
  simp only [Piece.completed_iff]
  rcases h.push p with ⟨message, hc, hpush⟩ | ⟨hnone, hpush⟩
  · rw [hpush]
    -- whatever else the piece goes on with is the same message
    have hone {m : Bytes} : (∃ total message, Continues calls message total p ∧
        (content message ++ p.data).length = total ∧ m = content message ++ p.data) ↔
        (content message ++ p.data).length = p.total ∧ m = content message ++ p.data := by
      constructor
      · rintro ⟨total, message', hc', hwhole, rfl⟩
        obtain ⟨rfl, rfl⟩ := hc.unique hc'
        exact ⟨hwhole, rfl⟩
      · rintro ⟨hwhole, rfl⟩
        exact ⟨_, message, hc, hwhole, rfl⟩
    have hidle (hle : p.total ≤ (content message ++ p.data).length) : Stands (calls ++ [p]) {} := by
      refine .idle fun message' total hs howes => ?_
      obtain ⟨message'', -, hc', hshort⟩ := Piece.owed_iff.1 ⟨hs, howes⟩
      obtain ⟨rfl, rfl⟩ := hc.unique hc'
      omega
    simp only [hone]
    unfold settled
    split
    · rename_i hover
      refine ⟨fun m => ⟨(nomatch ·), fun ⟨hwhole, _⟩ => ?_⟩, hidle hover.le⟩
      omega
    split
    · rename_i hover hshort
      refine ⟨fun m => ⟨(nomatch ·), fun ⟨hwhole, _⟩ => ?_⟩, ?_⟩
      · omega
      · obtain ⟨hs, howes⟩ := Piece.owed_iff.2 ⟨message, rfl, hc, hshort⟩
        rw [← Piece.content_snoc]
        exact .underway hs howes
    · rename_i hover hshort
      have hwhole : (content message ++ p.data).length = p.total := by omega
      refine ⟨fun m => ⟨?_, ?_⟩, hidle hwhole.ge⟩
      · rintro ⟨⟩
        exact ⟨hwhole, rfl⟩
      · rintro ⟨-, rfl⟩
        rfl
  · rw [hpush]
    refine ⟨fun m => ⟨(nomatch ·), ?_⟩, .idle fun message' total hs howes => ?_⟩
    · rintro ⟨total, message, hc, -, -⟩
      exact absurd hc (hnone message total)
    · obtain ⟨message, -, hc, -⟩ := Piece.owed_iff.1 ⟨hs, howes⟩
      exact hnone message total hc

/-! ## Runs -/

def after (r : Reassembly) : List Piece → Reassembly
  | [] => r
  | p :: pieces => (r.push p.offset p.total p.data).2.after pieces

def answers (r : Reassembly) : List Piece → List (Option Bytes)
  | [] => []
  | p :: pieces => (r.push p.offset p.total p.data).1 :: (r.push p.offset p.total p.data).2.answers pieces

theorem stands_after (h : Stands calls r) (pieces : List Piece) : Stands (calls ++ pieces) (r.after pieces) := by
  induction pieces generalizing calls r with
  | nil => simpa [after] using h
  | cons p pieces ih => simpa [after] using ih (h.step p).2

theorem getElem?_answers (r : Reassembly) (before : List Piece) (p : Piece) (rest : List Piece) :
    (r.answers (before ++ p :: rest))[before.length]? = some ((r.after before).push p.offset p.total p.data).1 := by
  induction before generalizing r with
  | nil => rfl
  | cons q before ih => simpa [answers, after] using ih _

/-! ## Messages in blocks -/

/-- The pieces of a message of `total` octets that is cut into blocks, the first of them at `offset`. -/
def cut (total : Nat) : (offset : Nat) → List Bytes → List Piece
  | _, [] => []
  | offset, block :: blocks => ⟨offset, total, block⟩ :: cut total (offset + block.length) blocks

variable {total : Nat}

theorem push_next (received : Bytes) (h : total ≤ maxPayload) (block : Bytes) :
    push ⟨received, some total⟩ received.length total block = settled (received ++ block) total := by
  by_cases hr : received = []
  · subst hr
    exact push_zero _ h block
  · have hne : received.length ≠ 0 := fun hzero => hr (List.length_eq_zero_iff.1 hzero)
    unfold push
    rw [if_neg hne]
    exact extend_of_eq received h

theorem answers_cut_of_idle {offset : Nat} (h : offset ≠ 0) (blocks : List Bytes) :
    answers {} (cut total offset blocks) = List.replicate blocks.length none := by
  induction blocks generalizing offset with
  | nil => rfl
  | cons block blocks ih =>
    have hpush : push {} offset total block = (none, {}) := by
      unfold push
      rw [if_neg h]
      exact extend_of_ne (.inl (by simp)) block
    have hnext : offset + block.length ≠ 0 := by omega
    simp only [cut, answers, hpush, ih hnext, List.length_cons, List.replicate_succ]

theorem answers_cut (received : Bytes) (blocks : List Bytes) (hfits : total ≤ maxPayload)
    (hshort : received.length < total) (hwhole : (received ++ blocks.flatten).length = total) :
    ∃ before block rest, blocks = before ++ block :: rest ∧ (received ++ before.flatten).length < total ∧
      (before ++ [block]).flatten = blocks.flatten ∧
      answers ⟨received, some total⟩ (cut total received.length blocks) =
        List.replicate before.length none ++
          some (received ++ blocks.flatten) :: List.replicate rest.length none := by
  induction blocks generalizing received with
  | nil =>
    simp at hwhole
    omega
  | cons block blocks ih =>
    have hlength : (received ++ block).length = received.length + block.length := List.length_append
    have hpush := push_next received hfits block
    simp only [List.flatten_cons, List.length_append] at hwhole
    by_cases hmore : (received ++ block).length < total
    · -- the block leaves more owed, so the completing one is among those after it
      have howed : push ⟨received, some total⟩ received.length total block =
          (none, ⟨received ++ block, some total⟩) := by
        rw [hpush, settled, if_neg hmore.not_gt, if_pos hmore]
      obtain ⟨before, last, rest, rfl, hbefore, hlast, hanswers⟩ := ih _ hmore (by rw [List.length_append]; omega)
      refine ⟨block :: before, last, rest, rfl, ?_, ?_, ?_⟩
      · rwa [List.flatten_cons, ← List.append_assoc]
      · rw [List.cons_append, List.flatten_cons, hlast, List.flatten_cons]
      · rw [cut, answers, howed, ← hlength, hanswers, List.flatten_cons, List.append_assoc]
        rfl
    · have hend : (received ++ block).length = total := by omega
      have hnil : blocks.flatten = [] := List.length_eq_zero_iff.1 (by omega)
      have hdone : push ⟨received, some total⟩ received.length total block = (some (received ++ block), {}) := by
        rw [hpush, settled, if_neg hend.not_gt, if_neg hmore]
      have hne : received.length + block.length ≠ 0 := by omega
      refine ⟨[], block, blocks, rfl, by simpa using hshort, by simp [hnil], ?_⟩
      rw [cut, answers, hdone, answers_cut_of_idle hne]
      simp [hnil]

theorem answers_cut_zero (r r' : Reassembly) (blocks : List Bytes) :
    r.answers (cut total 0 blocks) = r'.answers (cut total 0 blocks) := by
  cases blocks with
  | nil => rfl
  | cons block blocks =>
    have hpush : r.push 0 total block = r'.push 0 total block := rfl
    simp only [cut, answers, hpush]

/-- **A message is handed out exactly when its pieces complete it.**  The answer to a call is the content of the pieces
since the last one at offset zero if these make up a message, and nothing otherwise.  So a message that is cut into
blocks is handed out once, with the block that completes it, wherever the reassembly stood before. -/
theorem hands_out_completed :
    (∀ (calls : List Piece) (n : Nat), n < calls.length → ∀ m : Bytes,
      (answers {} calls)[n]? = some (some m) ↔
        ∃ total message, message <:+ calls.take (n + 1) ∧ Completes total message ∧ m = content message) ∧
    (∀ (r : Reassembly) (blocks : List Bytes), 1 ≤ blocks.flatten.length → blocks.flatten.length ≤ maxPayload →
      ∃ before block rest, blocks = before ++ block :: rest ∧ before.flatten.length < blocks.flatten.length ∧
        (before ++ [block]).flatten = blocks.flatten ∧
        r.answers (cut blocks.flatten.length 0 blocks) =
          List.replicate before.length none ++ some blocks.flatten :: List.replicate rest.length none) := by
  constructor
  · intro calls n hn m
    have hidle : Stands [] {} := .idle fun message total hs howes =>
      howes.begins.ne_nil (List.suffix_nil.1 hs)
    have hstands : Stands (calls.take n) (after {} (calls.take n)) := by
      simpa using stands_after hidle (calls.take n)
    have hsplit : calls = calls.take n ++ calls[n] :: calls.drop (n + 1) := by simp
    have hanswer : (answers {} calls)[n]? =
        some ((after {} (calls.take n)).push calls[n].offset calls[n].total calls[n].data).1 := by
      have := getElem?_answers {} (calls.take n) calls[n] (calls.drop (n + 1))
      rwa [← hsplit, List.length_take_of_le hn.le] at this
    have htake : calls.take (n + 1) = calls.take n ++ [calls[n]] := by simp
    rw [hanswer, Option.some.injEq, htake]
    exact (hstands.step calls[n]).1 m
  · intro r blocks hpos hfits
    obtain ⟨before, block, rest, hblocks, hbefore, hlast, hanswers⟩ :=
      answers_cut [] blocks hfits hpos rfl
    refine ⟨before, block, rest, hblocks, hbefore, hlast, ?_⟩
    rw [answers_cut_zero r ⟨[], some blocks.flatten.length⟩]
    exact hanswers

/-- A message of two octets that cuts off another; its second piece completes it. -/
def restarted : List Piece := [⟨0, 3, [7]⟩, ⟨0, 2, [1]⟩, ⟨1, 2, [2]⟩]

def fourBlocks : List Bytes := [[1], [], [2, 3], []]

theorem restarted_handed_out :
    (2 < restarted.length ∧ (answers {} restarted)[2]? = some (some [1, 2]) ∧
      ∃ total message, message <:+ restarted.take 3 ∧ Completes total message ∧ [1, 2] = content message) ∧
    (1 ≤ fourBlocks.flatten.length ∧ fourBlocks.flatten.length ≤ maxPayload ∧
      ∃ before block rest, fourBlocks = before ++ block :: rest ∧
        before.flatten.length < fourBlocks.flatten.length ∧ (before ++ [block]).flatten = fourBlocks.flatten ∧
        (after {} restarted).answers (cut fourBlocks.flatten.length 0 fourBlocks) =
          List.replicate before.length none ++ some fourBlocks.flatten :: List.replicate rest.length none) := by
  have hanswer : (answers {} restarted)[2]? = some (some [1, 2]) := by decide
  have hfits : fourBlocks.flatten.length ≤ maxPayload := by decide
  exact ⟨⟨by decide, hanswer, (hands_out_completed.1 restarted 2 (by decide) [1, 2]).1 hanswer⟩,
    by decide, hfits, hands_out_completed.2 (after {} restarted) fourBlocks (by decide) hfits⟩

end Reassembly
end Firmware
