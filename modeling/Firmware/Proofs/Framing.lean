import Firmware.Http.Client
/-!
# Framing — where a head ends

A head is a run of lines, each up to its LF, of which the last and no other is blank.  `readHead` takes exactly a head
off a stream that begins with one, whatever follows it (`readHead_of_isHead`).  Of a stream that does not, it takes all,
or more octets than a head may have (`HeadReading`).
-/
namespace Firmware.Http

/-- The octets of a head: lines up to the first blank one, CR LF. -/
inductive IsHead : Bytes → Prop
  | blank : IsHead [0x0D, 0x0A]
  | line {line rest : Bytes} (hline : 0x0A ∉ line) (hblank : line ≠ [0x0D]) (hrest : IsHead rest) :
    IsHead (line ++ 0x0A :: rest)

theorem IsHead.ne_nil {head : Bytes} (h : IsHead head) : head ≠ [] := by
  cases h <;> simp

theorem line_unique {line line' rest rest' : Bytes} (h : 0x0A ∉ line) (h' : 0x0A ∉ line')
    (heq : line ++ 0x0A :: rest = line' ++ 0x0A :: rest') : line = line' ∧ rest = rest' := by
  induction line generalizing line' with
  | nil =>
    cases line' with
    | nil => exact ⟨rfl, (List.cons.inj heq).2⟩
    | cons b line' => exact absurd (List.cons.inj heq).1 (List.ne_of_not_mem_cons h')
  | cons b line ih =>
    cases line' with
    | nil => exact absurd (List.cons.inj heq).1.symm (List.ne_of_not_mem_cons h)
    | cons b' line' =>
      obtain ⟨rfl, hrest⟩ := List.cons.inj heq
      obtain ⟨rfl, hmore⟩ := ih (List.not_mem_of_not_mem_cons h) (List.not_mem_of_not_mem_cons h') hrest
      exact ⟨rfl, hmore⟩

/-- **A stream begins with one head at most.** -/
theorem IsHead.unique {head head' rest rest' : Bytes} (h : IsHead head) (h' : IsHead head')
    (heq : head ++ rest = head' ++ rest') : head = head' := by
  have hcr : (0x0A : UInt8) ∉ [(0x0D : UInt8)] := by decide
  induction h generalizing head' with
  | blank =>
    cases h' with
    | blank => rfl
    | @line line' more' hline' hblank' _ =>
      rw [List.append_assoc] at heq
      have hfirst : [0x0D] ++ 0x0A :: rest = line' ++ 0x0A :: (more' ++ rest') := heq
      exact absurd (line_unique hcr hline' hfirst).1.symm hblank'
  | @line line more hline hblank _ ih =>
    rw [List.append_assoc] at heq
    cases h' with
    | blank =>
      have hfirst : line ++ 0x0A :: (more ++ rest) = [0x0D] ++ 0x0A :: rest' := heq
      exact absurd (line_unique hline hcr hfirst).1 hblank
    | @line line' more' hline' _ hmore' =>
      rw [List.append_assoc] at heq
      obtain ⟨rfl, hrest⟩ := line_unique hline hline' heq
      rw [ih hmore' hrest]

theorem readHeadFrom_line {line : Bytes} (h : 0x0A ∉ line) (done : Bytes) (n : Nat) (rest : Bytes) :
    readHeadFrom done n (line ++ 0x0A :: rest) =
      if maxHeadLength < done.length + line.length + 1 then (.error .headerTooLarge, rest)
      else if n + line.length = 1 ∧ (line.reverse ++ done).head? = some 0x0D then
        (headOf (done.reverse ++ line ++ [0x0A]), rest)
      else readHeadFrom (0x0A :: (line.reverse ++ done)) 0 rest := by
  induction line generalizing done n with
  | nil => simp [readHeadFrom]
  | cons b line ih =>
    obtain ⟨hb, hline⟩ := not_or.1 (mt List.mem_cons.2 h)
    have hlength : done.length + 1 + line.length + 1 = done.length + (line.length + 1) + 1 := by omega
    have hcount : n + 1 + line.length = n + (line.length + 1) := by omega
    rw [List.cons_append, readHeadFrom, if_neg (Ne.symm hb), ih hline]
    simp [hlength, hcount]

theorem readHeadFrom_fresh {line : Bytes} (h : 0x0A ∉ line) (done rest : Bytes) :
    readHeadFrom done.reverse 0 (line ++ 0x0A :: rest) =
      if maxHeadLength < (done ++ line ++ [0x0A]).length then (.error .headerTooLarge, rest)
      else if line = [0x0D] then (headOf (done ++ [0x0D, 0x0A]), rest)
      else readHeadFrom (done ++ line ++ [0x0A]).reverse 0 rest := by
  have hblank : 0 + line.length = 1 ∧ (line.reverse ++ done.reverse).head? = some 0x0D ↔ line = [0x0D] := by
    constructor
    · rintro ⟨hlength, hlast⟩
      have hone : line.length = 1 := by omega
      obtain ⟨b, rfl⟩ := List.length_eq_one_iff.1 hone
      simpa using hlast
    · rintro rfl
      simp
  rw [readHeadFrom_line h]
  simp only [hblank, List.length_append, List.length_reverse, List.length_singleton, List.reverse_reverse,
    List.reverse_append, List.reverse_singleton, List.singleton_append]
  split
  · rfl
  split
  · simp_all
  · rfl

theorem readHeadFrom_open {stream : Bytes} (h : 0x0A ∉ stream) (done : Bytes) (n : Nat) :
    readHeadFrom done n stream =
      (.error (if n + stream.length = 0 then .network
        else if maxHeadLength < done.length + stream.length then .headerTooLarge else .network), []) := by
  induction stream generalizing done n with
  | nil => simp [readHeadFrom]
  | cons b stream ih =>
    obtain ⟨hb, hstream⟩ := not_or.1 (mt List.mem_cons.2 h)
    have hlength : done.length + 1 + stream.length = done.length + (stream.length + 1) := by omega
    rw [readHeadFrom, if_neg (Ne.symm hb), ih hstream]
    simp [hlength]

theorem readHeadFrom_of_isHead {head : Bytes} (h : IsHead head) (done rest : Bytes)
    (hfits : (done ++ head).length ≤ maxHeadLength) :
    readHeadFrom done.reverse 0 (head ++ rest) = (headOf (done ++ head), rest) := by
  induction h generalizing done with
  | blank =>
    have hline : (0x0A : UInt8) ∉ [(0x0D : UInt8)] := by decide
    have hlength : ¬ maxHeadLength < (done ++ [0x0D] ++ [0x0A]).length := by simpa using hfits
    have hrun := readHeadFrom_fresh hline done rest
    rw [if_neg hlength, if_pos rfl] at hrun
    exact hrun
  | @line line more hline hblank hmore ih =>
    have hlength : ¬ maxHeadLength < (done ++ line ++ [0x0A]).length := by
      simp only [List.length_append, List.length_cons, List.length_nil] at hfits ⊢
      omega
    have hall : done ++ line ++ [0x0A] ++ more = done ++ (line ++ 0x0A :: more) := by simp
    rw [List.append_assoc, List.cons_append, readHeadFrom_fresh hline, if_neg hlength, if_neg hblank, ih, hall]
    rwa [hall]

/-- **A head is read off the front of a stream, and not an octet more.** -/
theorem readHead_of_isHead {head : Bytes} (h : IsHead head) (hfits : head.length ≤ maxHeadLength) (rest : Bytes) :
    readHead (head ++ rest) = (headOf head, rest) :=
  readHeadFrom_of_isHead h [] rest hfits

/-- What reading a head can come to when the lines in `done` were read before: a head was taken off the stream, or too
much was, or all of it. -/
inductive HeadReading (done stream : Bytes) : Except FetchError Head × Bytes → Prop
  | complete {head rest : Bytes} (hstream : stream = head ++ rest) (hhead : IsHead head)
      (hfits : (done ++ head).length ≤ maxHeadLength) : HeadReading done stream (headOf (done ++ head), rest)
  | tooLarge {front rest : Bytes} (hstream : stream = front ++ rest) (hlarge : maxHeadLength < (done ++ front).length) :
    HeadReading done stream (.error .headerTooLarge, rest)
  | broken (hfits : (done ++ stream).length ≤ maxHeadLength) : HeadReading done stream (.error .network, [])

theorem HeadReading.line {done line rest : Bytes} {result : Except FetchError Head × Bytes} (hline : 0x0A ∉ line)
    (hblank : line ≠ [0x0D]) (h : HeadReading (done ++ line ++ [0x0A]) rest result) :
    HeadReading done (line ++ 0x0A :: rest) result := by
  have hall (more : Bytes) : done ++ line ++ [0x0A] ++ more = done ++ (line ++ 0x0A :: more) := by simp
  cases h with
  | complete hstream hhead hfits =>
    rw [hall] at hfits ⊢
    exact .complete (by simp [hstream]) (.line hline hblank hhead) hfits
  | tooLarge hstream hlarge =>
    rw [hall] at hlarge
    exact .tooLarge (by simp [hstream]) hlarge
  | broken hfits =>
    rw [hall] at hfits
    exact .broken hfits

theorem headReading_readHeadFrom (done stream : Bytes) (hdone : done.length ≤ maxHeadLength) :
    HeadReading done stream (readHeadFrom done.reverse 0 stream) := by
  by_cases hmem : 0x0A ∈ stream
  · obtain ⟨line, rest, rfl, hline⟩ := List.eq_append_cons_of_mem hmem
    rw [readHeadFrom_fresh hline]
    split
    · rename_i hlarge
      have hstream : line ++ 0x0A :: rest = line ++ [0x0A] ++ rest := by simp
      exact .tooLarge hstream (by simpa [Nat.add_assoc] using hlarge)
    rename_i hfits
    split
    · rename_i hblank
      subst hblank
      exact .complete (by simp) .blank (by simpa using hfits)
    · rename_i hblank
      exact .line hline hblank (headReading_readHeadFrom _ rest (by omega))
  · rw [readHeadFrom_open hmem]
    by_cases hlarge : maxHeadLength < (done ++ stream).length
    · have hne : ¬ 0 + stream.length = 0 := fun hnil => by
        simp [List.eq_nil_of_length_eq_zero (by omega : stream.length = 0)] at hlarge
        omega
      rw [if_neg hne, if_pos (by simpa using hlarge)]
      exact .tooLarge (List.append_nil stream).symm hlarge
    · rw [if_neg (c := maxHeadLength < _) (by simpa using hlarge), ite_self]
      exact .broken (by omega)
termination_by stream.length

/-- **Every stream is read for a head in one of three ways.** -/
theorem headReading_readHead (stream : Bytes) : HeadReading [] stream (readHead stream) :=
  headReading_readHeadFrom [] stream (Nat.zero_le _)

/-! ## Sessions -/

/-- One call of a client: what it asks for, and the buffer for the body. -/
structure Ask where
  resource : String
  range : ByteRange
  buffer : Bytes

theorem localhost_fits : "127.0.0.1".utf8ByteSize ≤ 128 := by decide

def Session.waiting (unread : Bytes) : Session := ⟨⟨"127.0.0.1", localhost_fits⟩, unread⟩

namespace Client

def fetchAll (c : Client) : List Ask → List Fetched × Client
  | [] => ([], c)
  | ask :: asks =>
    let (fetched, c) := c.fetch ask.resource ask.range ask.buffer
    let (more, c) := c.fetchAll asks
    (fetched :: more, c)

variable {c : Client} {session : Session}

theorem answered_fetch (h : c.session = some session) (ask : Ask) :
    (c.fetch ask.resource ask.range ask.buffer).1 = (readResponse ask.buffer session.unread).1 := by
  simp only [fetch, h]

theorem session_fetch_broken (h : c.session = some session) (ask : Ask)
    (hanswer : (readResponse ask.buffer session.unread).1.answer = .error .network) :
    (c.fetch ask.resource ask.range ask.buffer).2.session = none := by
  simp only [fetch, h, hanswer]

theorem session_fetch_kept (h : c.session = some session) (ask : Ask)
    (hanswer : (readResponse ask.buffer session.unread).1.answer ≠ .error .network) :
    (c.fetch ask.resource ask.range ask.buffer).2.session =
      some { session with unread := (readResponse ask.buffer session.unread).2 } := by
  simp only [fetch, h]

end Client
end Firmware.Http
