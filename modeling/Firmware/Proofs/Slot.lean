import Mathlib.Data.List.Basic
import Firmware.Proofs.Partition
/-!
# Slot — the slot is what the history wrote into it

A partition may be asked anything at any time: files are created over open files, written at any offset, closed with
other signatures, marked and discarded.  A history lists the requests with their answers.  `Underway` finds the receive
file that a history leaves open and what was asked of it since, without looking at a partition; the partition then holds
that file, with the blocks that were accepted since in its slot (`slot_matches_history`).
-/
namespace Firmware.Partition

inductive Request where
  | create (file : ReceiveFile)
  | write (offset : UInt32) (block : Bytes)
  | close (file : ReceiveFile)
  | abort
  | activate
  | setState (next : ImageState)

def Request.run (p : Partition) : Request → Except FlashError Unit × Partition
  | .create file => p.create file
  | .write offset block => ((p.write offset block).1.map fun _ => (), (p.write offset block).2)
  | .close file => p.close file
  | .abort => p.abort
  | .activate => p.activate
  | .setState next => p.setState next

abbrev Entry := Request × Except FlashError Unit

def after (p : Partition) : List Request → Partition
  | [] => p
  | r :: requests => (r.run p).2.after requests

/-- The requests with their answers, oldest first. -/
def history (p : Partition) : List Request → List Entry
  | [] => []
  | r :: requests => (r, (r.run p).1) :: (r.run p).2.history requests

/-! ## What a history says -/

namespace Entry

/-- No file that was open before is open after this: an attempt to create one, and whatever discards one. -/
def ends : Entry → Bool
  | (.create _, _) | (.abort, _) | (.setState .rejected, .ok ()) | (.setState .aborted, .ok ()) => true
  | _ => false

def block? : Entry → Option Bytes
  | (.write _ block, .ok ()) => some block
  | _ => none

end Entry

def written (entries : List Entry) : Bytes := (entries.filterMap Entry.block?).flatten

/-- One of the entries closed the file. -/
def Sealed (entries : List Entry) : Prop := ∃ file, (Request.close file, Except.ok ()) ∈ entries

/-- `file` was created and nothing ended it since; `since` is what was asked since. -/
structure Underway (entries : List Entry) (file : ReceiveFile) (since : List Entry) : Prop where
  created : ∃ before, entries = before ++ (.create file, .ok ()) :: since
  lasting : ∀ e ∈ since, e.ends = false

variable {entries since : List Entry} {e : Entry} {file : ReceiveFile}

theorem written_snoc (entries : List Entry) (e : Entry) :
    written (entries ++ [e]) = written entries ++ e.block?.getD [] := by
  unfold written
  cases h : e.block? <;> simp [List.filterMap_append, h]

theorem underway_created (entries : List Entry) (file : ReceiveFile) :
    Underway (entries ++ [(.create file, .ok ())]) file [] :=
  ⟨⟨entries, rfl⟩, by simp⟩

theorem Underway.snoc (h : Underway entries file since) (he : e.ends = false) :
    Underway (entries ++ [e]) file (since ++ [e]) := by
  obtain ⟨before, rfl⟩ := h.created
  refine ⟨⟨before, by simp⟩, fun e' hmem => ?_⟩
  rcases List.mem_append.1 hmem with hmem | hmem
  · exact h.lasting e' hmem
  · rwa [List.mem_singleton.1 hmem]

theorem split_snoc {x : Entry} {before later : List Entry} (h : entries ++ [e] = before ++ x :: later) :
    (entries = before ∧ e = x ∧ later = []) ∨ ∃ earlier, later = earlier ++ [e] ∧ entries = before ++ x :: earlier := by
  rcases List.eq_nil_or_concat later with rfl | ⟨earlier, last, rfl⟩
  · obtain ⟨hentries, hlast⟩ := List.append_inj' h rfl
    exact .inl ⟨hentries, List.singleton_inj.1 hlast, rfl⟩
  · have hsplit : entries ++ [e] = (before ++ x :: earlier) ++ [last] := by simpa using h
    obtain ⟨hentries, hlast⟩ := List.append_inj' hsplit rfl
    obtain rfl : e = last := List.singleton_inj.1 hlast
    exact .inr ⟨earlier, by simp, hentries⟩

theorem Underway.of_snoc (h : Underway (entries ++ [e]) file since) :
    e = (.create file, .ok ()) ∨ e.ends = false ∧ ∃ earlier, Underway entries file earlier := by
  obtain ⟨before, hsplit⟩ := h.created
  rcases split_snoc hsplit with ⟨-, rfl, -⟩ | ⟨earlier, rfl, rfl⟩
  · exact .inl rfl
  · exact .inr ⟨h.lasting e (by simp), earlier, ⟨before, rfl⟩, fun e' hmem => h.lasting e' (by simp [hmem])⟩

theorem Underway.since_suffix (h : Underway entries file since) : (.create file, .ok ()) :: since <:+ entries := by
  obtain ⟨before, rfl⟩ := h.created
  exact List.suffix_append before _

theorem Underway.not_created_since {file' : ReceiveFile} (h : Underway entries file since) :
    (.create file', .ok ()) ∉ since := fun hmem => by
  have hends := h.lasting _ hmem
  cases hends

theorem Underway.unique {file' : ReceiveFile} {since' : List Entry} (h : Underway entries file since)
    (h' : Underway entries file' since') : file = file' ∧ since = since' := by
  rcases List.suffix_or_suffix_of_suffix h.since_suffix h'.since_suffix with hsuffix | hsuffix
  · rcases List.suffix_cons_iff.1 hsuffix with heq | hinner
    · cases heq
      exact ⟨rfl, rfl⟩
    · exact absurd (hinner.subset List.mem_cons_self) h'.not_created_since
  · rcases List.suffix_cons_iff.1 hsuffix with heq | hinner
    · cases heq
      exact ⟨rfl, rfl⟩
    · exact absurd (hinner.subset List.mem_cons_self) h.not_created_since

theorem Underway.created_after_close (h : Underway entries file since) (hopen : ¬ Sealed since)
    {before later : List Entry} {closing : ReceiveFile}
    (hsplit : entries = before ++ (.close closing, .ok ()) :: later) : (.create file, .ok ()) ∈ later := by
  obtain ⟨first, rfl⟩ := h.created
  rcases List.append_eq_append_iff.1 hsplit with ⟨head, -, hlater⟩ | ⟨tail, -, hlater⟩
  · cases head with
    | nil => cases hlater
    | cons x head =>
      refine absurd ⟨closing, ?_⟩ hopen
      rw [(List.cons.inj hlater).2]
      simp
  · cases tail with
    | nil => cases hlater
    | cons x tail =>
      rw [(List.cons.inj hlater).2]
      simp

/-! ## What one request does -/

section Operations

variable {p q : Partition} {current : OpenFile}

theorem empty_of_create_eq_error {e : FlashError} (h : p.create file = (.error e, q))
    (hslot : p.file = none → p.slot = .empty) : q.file = none ∧ q.slot = .empty := by
  rw [create_eq_error h]
  cases hfile : p.file with
  | none => exact ⟨hfile, hslot hfile⟩
  | some current => exact ⟨rfl, rfl⟩

/-- **A block is taken whole or not at all**, as long as the open file has room for what it declares; the counter takes
its length without wrapping. -/
theorem write_whole_or_refused (hfile : p.file = some current) (hslot : p.image.length = current.written.toNat)
    (hroom : current.size.toNat ≤ p.capacity) (offset : UInt32) (block : Bytes) :
    (∃ e, p.write offset block = (.error e, p)) ∨
      current.closed = false ∧ current.written.toNat + block.length ≤ current.size.toNat ∧
        ∃ hasher count, count.toNat = current.written.toNat + block.length ∧
          p.write offset block = (.ok block.length,
            { p with
              slot := p.slot ++ block.toByteArray
              file := some { current with hasher, written := count } }) := by
  unfold write
  rw [hfile]
  simp only
  split
  · exact .inl ⟨_, rfl⟩
  rename_i hclosed
  split
  · exact .inl ⟨_, rfl⟩
  rename_i hfits
  obtain ⟨hoffset, hlength⟩ := not_or.1 hfits
  obtain rfl := Decidable.not_not.1 hoffset
  have hsize : p.slot.size = current.written.toNat := by rw [← length_image, hslot]
  have hwhole : block.take (p.capacity - p.slot.size) = block := List.take_of_length_le (by omega)
  have hbelow := current.size.toNat_lt
  have hblock : block.length ≤ current.size.toNat := by omega
  have hcount : (current.written + UInt32.ofNat block.length).toNat = current.written.toNat + block.length := by
    rw [UInt32.toNat_add, UInt32.toNat_ofNat_of_lt' (Nat.lt_of_le_of_lt hblock hbelow), Nat.mod_eq_of_lt (by omega)]
  rw [hwhole]
  exact .inr ⟨by simpa using hclosed, by omega, _, _, hcount, rfl⟩

/-- **A file closes only when it is complete**; closing it again keeps it closed, whatever the answer. -/
theorem close_complete_or_refused (hfile : p.file = some current) (file : ReceiveFile) :
    ∃ answer hasher closed, p.close file = (answer, { p with file := some { current with hasher, closed } }) ∧
      ((∃ e, answer = .error e) ∧ closed = current.closed ∨
        answer = .ok () ∧ closed = true ∧ current.written = current.size) := by
  have hsame : p = { p with file := some { current with hasher := current.hasher, closed := current.closed } } := by
    rw [← hfile]
  unfold close
  rw [hfile]
  simp only
  split
  · exact ⟨_, _, _, congrArg (Prod.mk _) hsame, .inl ⟨⟨_, rfl⟩, rfl⟩⟩
  rename_i hfull
  have hfull := Decidable.not_not.1 hfull
  cases file.signature with
  | none => exact ⟨_, _, _, rfl, .inr ⟨rfl, rfl, hfull⟩⟩
  | some signature =>
    simp only [verify]
    by_cases hcert : signature.certPath.isEmpty = true
    · rw [if_pos hcert]
      exact ⟨_, _, _, rfl, .inl ⟨⟨_, rfl⟩, rfl⟩⟩
    rw [if_neg hcert]
    cases hhasher : current.hasher with
    | none => exact ⟨_, current.hasher, current.closed, rfl, .inl ⟨⟨_, rfl⟩, rfl⟩⟩
    | some hasher =>
      by_cases hdigest : hasher.finish = signature.data
      · simp only [if_pos hdigest]
        exact ⟨_, _, _, rfl, .inr ⟨rfl, rfl, hfull⟩⟩
      · simp only [if_neg hdigest]
        exact ⟨_, _, _, rfl, .inl ⟨⟨_, rfl⟩, rfl⟩⟩

end Operations

/-! ## Where a history leaves the partition -/

/-- How the partition stands to the history that led to it: it has no file, or the one that is underway. -/
inductive Standing (entries : List Entry) (p : Partition) : Prop
  | vacant (noFile : p.file = none) (empty : p.slot = .empty) (none : ∀ file since, ¬ Underway entries file since)
  | holding {file : ReceiveFile} {since : List Entry} {current : OpenFile} (opened : p.file = some current)
      (underway : Underway entries file since) (size : current.size = file.size) (image : p.image = written since)
      (count : (written since).length = current.written.toNat) (within : (written since).length ≤ file.size.toNat)
      (room : file.size.toNat ≤ p.capacity) (closed : current.closed = true ↔ Sealed since)
      (full : current.closed = true → current.written = current.size)

namespace Standing

variable {p q : Partition}

theorem idle (h : Standing entries p) (hends : e.ends = false) (hblock : e.block? = none)
    (hclose : ∀ file, e ≠ (.close file, .ok ())) (hcreate : ∀ file, e ≠ (.create file, .ok ()))
    (hslot : q.slot = p.slot) (hcapacity : q.capacity = p.capacity)
    (hfile : (p.file = none → q.file = none) ∧ ∀ current, p.file = some current →
      ∃ hasher, q.file = some { current with hasher }) :
    Standing (entries ++ [e]) q := by
  cases h with
  | vacant noFile empty none =>
    refine .vacant (hfile.1 noFile) (hslot.trans empty) fun file since hunderway => ?_
    rcases hunderway.of_snoc with hcreated | ⟨-, earlier, hearlier⟩
    · exact hcreate file hcreated
    · exact none file earlier hearlier
  | @holding file since current opened underway size image count within room closed full =>
    obtain ⟨hasher, hopened⟩ := hfile.2 current opened
    have hwritten : written (since ++ [e]) = written since := by rw [written_snoc, hblock]; simp
    have hsealed : Sealed (since ++ [e]) ↔ Sealed since := by
      refine exists_congr fun closing => ?_
      rw [List.mem_append, List.mem_singleton, or_iff_left fun heq => hclose closing heq.symm]
    refine .holding hopened (underway.snoc hends) size ?_ ?_ ?_ ?_ ?_ full
    · rw [hwritten, ← image, Partition.image, hslot, Partition.image]
    · rw [hwritten, count]
    · rw [hwritten]; exact within
    · rw [hcapacity]; exact room
    · rw [hsealed]; exact closed

theorem idle_of_file_eq (h : Standing entries p) (hends : e.ends = false) (hblock : e.block? = none)
    (hclose : ∀ file, e ≠ (.close file, .ok ())) (hcreate : ∀ file, e ≠ (.create file, .ok ()))
    (hslot : q.slot = p.slot) (hcapacity : q.capacity = p.capacity) (hfile : q.file = p.file) :
    Standing (entries ++ [e]) q :=
  h.idle hends hblock hclose hcreate hslot hcapacity
    ⟨hfile.trans, fun current hopened => ⟨current.hasher, hfile.trans hopened⟩⟩

theorem discarded (hfile : q.file = none) (hslot : q.slot = .empty) (hends : e.ends = true)
    (hcreate : ∀ file, e ≠ (.create file, .ok ())) : Standing (entries ++ [e]) q := by
  refine .vacant hfile hslot fun file since hunderway => ?_
  rcases hunderway.of_snoc with hcreated | ⟨hlasting, -⟩
  · exact hcreate file hcreated
  · rw [hends] at hlasting
    cases hlasting

theorem slot_of_no_file (h : Standing entries p) (hfile : p.file = none) : p.slot = .empty := by
  cases h with
  | vacant _ empty _ => exact empty
  | holding opened => rw [opened] at hfile; cases hfile

/-! One lemma for each request. -/

theorem create (h : Standing entries p) (file : ReceiveFile) :
    Standing (entries ++ [(.create file, (p.create file).1)]) (p.create file).2 := by
  rcases hrun : p.create file with ⟨e | u, q⟩
  · obtain ⟨hfile, hslot⟩ := empty_of_create_eq_error hrun h.slot_of_no_file
    exact discarded hfile hslot rfl fun _ heq => by cases heq
  · obtain ⟨hreceives, -, hcapacity, hroom⟩ := create_eq_ok hrun
    have hsealed : ¬ Sealed [] := fun ⟨_, hmem⟩ => by cases hmem
    exact .holding hreceives.opened (underway_created entries file) rfl hreceives.holds rfl (Nat.zero_le _)
      (hcapacity ▸ hroom) (by simp [hsealed]) (by simp)

theorem write (h : Standing entries p) (offset : UInt32) (block : Bytes) :
    Standing (entries ++ [(.write offset block, ((Request.write offset block).run p).1)])
      ((Request.write offset block).run p).2 := by
  simp only [Request.run]
  cases h with
  | vacant noFile empty none =>
    have hrun : p.write offset block = (.error .noActiveFile, p) := by simp only [Partition.write, noFile]
    rw [hrun]
    exact (Standing.vacant noFile empty none).idle_of_file_eq rfl rfl (by simp) (by simp) rfl rfl rfl
  | @holding file since current opened underway size image count within room closed full =>
    have hlength : p.image.length = current.written.toNat := by rw [image, count]
    rcases write_whole_or_refused opened hlength (size ▸ room) offset block with
      ⟨e, hrun⟩ | ⟨hopen, hfits, hasher, total, htotal, hrun⟩
    · rw [hrun]
      exact (Standing.holding opened underway size image count within room closed full).idle_of_file_eq rfl rfl
        (by simp) (by simp) rfl rfl rfl
    · rw [hrun]
      have hanswer : (Except.ok block.length : Except FlashError Nat).map (fun _ => ()) = .ok () := rfl
      rw [hanswer]
      have hwritten : written (since ++ [(.write offset block, .ok ())]) = written since ++ block := written_snoc _ _
      have hsealed : ¬ Sealed (since ++ [(.write offset block, .ok ())]) := fun ⟨closing, hmem⟩ => by
        have hmem : (Request.close closing, Except.ok ()) ∈ since := by simpa using hmem
        rw [closed.2 ⟨closing, hmem⟩] at hopen
        cases hopen
      refine .holding rfl (underway.snoc rfl) size ?_ ?_ ?_ room ?_ ?_
      · rw [hwritten, ← image]
        exact image_append p.slot block p
      · rw [hwritten, List.length_append, count, htotal]
      · rw [hwritten, List.length_append, count, ← size]
        exact hfits
      · simp [hopen, hsealed]
      · simp [hopen]

theorem close (h : Standing entries p) (file : ReceiveFile) :
    Standing (entries ++ [(.close file, (p.close file).1)]) (p.close file).2 := by
  cases h with
  | vacant noFile empty none =>
    have hrun : p.close file = (.error .noActiveFile, p) := by simp only [Partition.close, noFile]
    rw [hrun]
    exact (Standing.vacant noFile empty none).idle_of_file_eq rfl rfl (by simp) (by simp) rfl rfl rfl
  | @holding file' since current opened underway size image count within room closed full =>
    obtain ⟨answer, hasher, closed', hrun, ⟨⟨e, rfl⟩, rfl⟩ | ⟨rfl, rfl, hfull⟩⟩ := close_complete_or_refused opened file
    · rw [hrun]
      refine (Standing.holding opened underway size image count within room closed full).idle rfl rfl
        (by simp) (by simp) rfl rfl ⟨fun hnone => ?_, fun current' hfile => ⟨hasher, ?_⟩⟩
      · rw [opened] at hnone
        cases hnone
      · rw [opened] at hfile
        cases hfile
        rfl
    · rw [hrun]
      have hwritten : written (since ++ [(.close file, .ok ())]) = written since := by
        rw [written_snoc]
        simp [Entry.block?]
      refine .holding rfl (underway.snoc rfl) size ?_ ?_ ?_ room ?_ fun _ => hfull
      · rw [hwritten]
        exact image
      · rw [hwritten]
        exact count
      · rw [hwritten]
        exact within
      · exact ⟨fun _ => ⟨file, by simp⟩, fun _ => rfl⟩

theorem abort (p : Partition) : Standing (entries ++ [(.abort, p.abort.1)]) p.abort.2 :=
  discarded rfl rfl rfl (by simp)

theorem activate (h : Standing entries p) : Standing (entries ++ [(.activate, p.activate.1)]) p.activate.2 := by
  obtain ⟨activated, hframe⟩ := p.activate_frame
  rw [hframe]
  exact h.idle_of_file_eq rfl rfl (by simp) (by simp) rfl rfl rfl

theorem setState (h : Standing entries p) (next : ImageState) :
    Standing (entries ++ [(.setState next, (p.setState next).1)]) (p.setState next).2 := by
  unfold Partition.setState
  by_cases hmay : p.state.mayBecome next = true
  · rw [if_pos hmay]
    cases next with
    | aborted => exact discarded rfl rfl rfl (by simp)
    | rejected =>
      by_cases hfile : p.file.isSome = true
      · simp only [hfile, if_true]
        exact discarded rfl rfl rfl (by simp)
      · have hnone : p.file = none := by simpa using hfile
        simp only [hnone, Option.isSome_none, Bool.false_eq_true, if_false]
        exact discarded rfl (h.slot_of_no_file hnone) rfl (by simp)
    | unknown | testing | accepted =>
      exact h.idle_of_file_eq rfl rfl (by simp) (by simp) rfl rfl rfl
  · rw [if_neg hmay]
    exact h.idle_of_file_eq (by cases next <;> rfl) rfl (by simp) (by simp) rfl rfl rfl

theorem step (h : Standing entries p) (r : Request) : Standing (entries ++ [(r, (r.run p).1)]) (r.run p).2 := by
  cases r with
  | create file => exact h.create file
  | write offset block => exact h.write offset block
  | close file => exact h.close file
  | abort => exact .abort p
  | activate => exact h.activate
  | setState next => exact h.setState next

theorem run (h : Standing entries p) (requests : List Request) :
    Standing (entries ++ p.history requests) (p.after requests) := by
  induction requests generalizing entries p with
  | nil => simpa [history, after] using h
  | cons r requests ih => simpa [history, after] using ih (h.step r)

end Standing

/-! ## The slot and its history -/

/-- **The image state moves along the edges of its life cycle**, or to unknown when a file is created; a request that
is refused leaves it. -/
theorem state_of_run (r : Request) (p : Partition) :
    (r.run p).2.state = p.state ∨ (r.run p).1 = .ok () ∧
      ((∃ file, r = .create file ∧ (r.run p).2.state = .unknown) ∨
        ∃ next, r = .setState next ∧ p.state.mayBecome next = true ∧ (r.run p).2.state = next) := by
  cases r with
  | create file =>
    rcases hrun : p.create file with ⟨e | u, q⟩
    · refine .inl ?_
      rw [Request.run, hrun, create_eq_error hrun]
      split <;> rfl
    · obtain ⟨-, hstate, -⟩ := create_eq_ok hrun
      exact .inr ⟨congrArg Prod.fst hrun, .inl ⟨file, rfl, by rw [Request.run, hrun]; exact hstate⟩⟩
  | write offset block =>
    obtain ⟨_, _, hframe⟩ := p.write_frame offset block
    exact .inl (by rw [Request.run, hframe])
  | close file =>
    obtain ⟨_, hframe⟩ := p.close_frame file
    exact .inl (by rw [Request.run, hframe])
  | abort => exact .inl rfl
  | activate =>
    obtain ⟨_, hframe⟩ := p.activate_frame
    exact .inl (by rw [Request.run, hframe])
  | setState next =>
    simp only [Request.run, Partition.setState]
    by_cases hmay : p.state.mayBecome next = true
    · rw [if_pos hmay]
      exact .inr ⟨rfl, .inr ⟨next, rfl, hmay, rfl⟩⟩
    · rw [if_neg hmay]
      exact .inl rfl

/-- What a history tells of the partition that it led to. -/
structure Explains (entries : List Entry) (p : Partition) : Prop where
  vacant : p.file = none → p.image = [] ∧ ∀ file since, ¬ Underway entries file since
  holding : ∀ current, p.file = some current → ∃ file since, Underway entries file since ∧
    p.image = written since ∧ p.image.length = current.written.toNat ∧ current.written ≤ current.size ∧
    current.size = file.size ∧ file.size.toNat ≤ p.capacity
  /-- A block is accepted whole, the counter takes its length without wrapping, and no close stands in the history
  without a file created after it. -/
  accepted : ∀ offset block taken q, p.write offset block = (.ok taken, q) →
    taken = block.length ∧ q.image = p.image ++ block ∧
      (∃ current current', p.file = some current ∧ q.file = some current' ∧
        current'.written.toNat = current.written.toNat + block.length) ∧
      ∀ before closing later, entries = before ++ (.close closing, .ok ()) :: later →
        ∃ file, (Request.create file, Except.ok ()) ∈ later
  refused : ∀ offset block e q, p.write offset block = (.error e, q) → q.image = p.image
  activated : ∀ q, p.activate = (.ok (), q) →
    ∃ file since, Underway entries file since ∧ Sealed since ∧ p.image.length = file.size.toNat
  marked : ∀ r : Request, (r.run p).2.state ≠ p.state → (r.run p).1 = .ok () ∧
    ((∃ file, r = .create file ∧ (r.run p).2.state = .unknown) ∨
      ∃ next, r = .setState next ∧ p.state.mayBecome next = true ∧ (r.run p).2.state = next)

theorem capacity_after (p : Partition) (requests : List Request) : (p.after requests).capacity = p.capacity := by
  induction requests generalizing p with
  | nil => rfl
  | cons r requests ih =>
    rw [after, ih]
    cases r with
    | create file => exact p.capacity_create file
    | write offset block => exact p.capacity_write offset block
    | close file => exact p.capacity_close file
    | abort => rfl
    | activate => exact p.capacity_activate
    | setState next => exact p.capacity_setState next

theorem Standing.explains {p : Partition} (h : Standing entries p) : Explains entries p := by
  cases h with
  | vacant noFile empty none =>
    have hrefused (offset : UInt32) (block : Bytes) : p.write offset block = (.error .noActiveFile, p) := by
      simp only [Partition.write, noFile]
    refine ⟨fun _ => ⟨?_, none⟩, fun current hfile => ?_, fun offset block taken q hrun => ?_,
      fun offset block e q hrun => ?_, fun q hrun => ?_, fun r hne => ((state_of_run r p).resolve_left hne)⟩
    · rw [Partition.image, empty]
      rfl
    · rw [noFile] at hfile
      cases hfile
    · rw [hrefused] at hrun
      cases hrun
    · rw [hrefused] at hrun
      cases hrun
      rfl
    · simp [Partition.activate, isClosed, noFile] at hrun
  | @holding file since current opened underway size image count within room closed full =>
    have hlength : p.image.length = current.written.toNat := by rw [image, count]
    have hwrite := write_whole_or_refused opened hlength (size ▸ room)
    refine ⟨fun hnone => ?_, fun current' hfile => ?_, fun offset block taken q hrun => ?_,
      fun offset block e q hrun => ?_, fun q hrun => ?_, fun r hne => ((state_of_run r p).resolve_left hne)⟩
    · rw [opened] at hnone
      cases hnone
    · rw [opened] at hfile
      cases hfile
      refine ⟨file, since, underway, image, hlength, ?_, size, room⟩
      rw [UInt32.le_iff_toNat_le, ← count, size]
      exact within
    · rcases hwrite offset block with ⟨e, hrefused⟩ | ⟨hopen, -, hasher, count', hcount, haccepted⟩
      · rw [hrefused] at hrun
        cases hrun
      · rw [haccepted] at hrun
        cases hrun
        have hunsealed : ¬ Sealed since := fun hsealed => by
          rw [closed.2 hsealed] at hopen
          cases hopen
        refine ⟨rfl, image_append p.slot block p, ⟨current, _, opened, rfl, hcount⟩,
          fun before closing later hsplit => ⟨file, underway.created_after_close hunsealed hsplit⟩⟩
    · rcases hwrite offset block with ⟨e, hrefused⟩ | ⟨-, -, _, _, -, haccepted⟩
      · rw [hrefused] at hrun
        cases hrun
        rfl
      · rw [haccepted] at hrun
        cases hrun
    · have hclosed : current.closed = true := by
        cases hopen : current.closed with
        | true => rfl
        | false => simp [Partition.activate, isClosed, opened, hopen] at hrun
      refine ⟨file, since, underway, closed.1 hclosed, ?_⟩
      rw [hlength, full hclosed, size]

/-- **The slot is what the history wrote into it**, whatever is asked of a partition and in which order.  With no file
underway it is empty; with one it holds the blocks accepted since the file was created, as many octets as are counted
and no more than were declared and fit.  Blocks are accepted whole, never after the file was closed, and only a file
that was closed since, and is complete, is activated.  The image state moves along its life cycle or starts over. -/
theorem slot_matches_history (capacity : Nat) (boot : ImageState) (requests : List Request) :
    Explains (history { capacity, state := boot } requests) (after { capacity, state := boot } requests) ∧
      (after { capacity, state := boot } requests).capacity = capacity := by
  have hblank : Standing [] ({ capacity, state := boot } : Partition) :=
    .vacant rfl rfl fun file since hunderway => by
      obtain ⟨before, hsplit⟩ := hunderway.created
      simp at hsplit
  exact ⟨by simpa using (hblank.run requests).explains, capacity_after _ requests⟩

def threeOctets : ReceiveFile where
  path := .empty
  size := 3
  signature := none

/-- The three octets come in two blocks.  In between the first one is repeated and the file is to be closed early; after
the close one more octet comes. -/
def inTwoBlocks : List Request :=
  [.create threeOctets, .write 0 [7, 8], .write 0 [7, 8], .close threeOctets, .write 2 [9], .close threeOctets,
    .write 3 [0], .activate]

theorem inTwoBlocks_matches_history :
    (history { capacity := 3, state := .accepted } inTwoBlocks).map Prod.snd =
        [.ok (), .ok (), .error .writeFailed, .error .closeFailed, .ok (), .ok (), .error .noActiveFile, .ok ()] ∧
      ∃ file since, Underway (history { capacity := 3, state := .accepted } inTwoBlocks) file since ∧ Sealed since ∧
        written since = [7, 8, 9] ∧ file.size.toNat = 3 := by
  refine ⟨by decide +kernel, ?_⟩
  obtain ⟨hexplains, -⟩ := slot_matches_history 3 .accepted inTwoBlocks
  have hactivates : (after { capacity := 3, state := .accepted } inTwoBlocks).activate.1 = .ok () := by decide +kernel
  have himage : (after { capacity := 3, state := .accepted } inTwoBlocks).image = [7, 8, 9] := by decide +kernel
  obtain ⟨file, since, hunderway, hsealed, hlength⟩ := hexplains.activated _ (Prod.ext hactivates rfl)
  obtain ⟨file', since', hunderway', hwritten, -⟩ := hexplains.holding _ rfl
  obtain ⟨rfl, rfl⟩ := hunderway.unique hunderway'
  exact ⟨_, _, hunderway, hsealed, hwritten.symm.trans himage, by rw [← hlength, himage]; rfl⟩

end Firmware.Partition
