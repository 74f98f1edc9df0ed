import Firmware.Proofs.Activation
/-!
# Selection — what the mark of an activated image tells

An activation marks the partition, and only the opening of the next file takes the mark back.  So the mark tells that an
image was activated and that no file was created since (`activated_iff`).  Whether the image is still there is another
matter: whatever ends its file discards it and leaves the mark.  `holds_activated_iff` says exactly when a marked
partition holds the image that was activated last.
-/
namespace Firmware.Partition

variable {entries before later since : List Entry} {e : Entry} {file : ReceiveFile} {p : Partition}

/-- The last activation followed the entries `before`, and no file was created since. -/
structure Selected (entries before later : List Entry) : Prop where
  activated : entries = before ++ (.activate, .ok ()) :: later
  last : (.activate, .ok ()) ∉ later
  kept : ∀ file, (.create file, .ok ()) ∉ later

/-- The slot holds the image of a file that is open and closed to writing. -/
structure Holds (p : Partition) (file : ReceiveFile) (image : Bytes) : Prop where
  opened : ∃ current, p.file = some current ∧ current.closed = true ∧ current.size = file.size
  slot : p.image = image
  whole : p.image.length = file.size.toNat

/-! ## The mark and its history -/

namespace Entry

def mark (marked : Bool) : Entry → Bool
  | (.create _, .ok ()) => false
  | (.activate, .ok ()) => true
  | _ => marked

end Entry

theorem activated_run (r : Request) (p : Partition) :
    (r.run p).2.activated = Entry.mark p.activated (r, (r.run p).1) := by
  cases r with
  | create file =>
    simp only [Request.run]
    rcases hrun : p.create file with ⟨e | _, q⟩
    · rw [create_eq_error hrun]
      simp only [Entry.mark]
      split <;> rfl
    · unfold create at hrun
      generalize (if p.file.isSome then p.discard else p) = r at hrun
      simp only at hrun
      split at hrun
      · cases hrun
      · rw [← (Prod.mk.inj hrun).2]
        rfl
  | write offset block =>
    obtain ⟨_, _, hframe⟩ := p.write_frame offset block
    simp only [Request.run, hframe, Entry.mark]
  | close file =>
    obtain ⟨_, hframe⟩ := p.close_frame file
    simp only [Request.run, hframe, Entry.mark]
  | abort => rfl
  | activate =>
    simp only [Request.run, activate]
    split <;> rfl
  | setState next =>
    simp only [Request.run, setState, Entry.mark]
    split
    · cases next with
      | rejected => simp only; split <;> rfl
      | unknown | testing | accepted | aborted => rfl
    · rfl

theorem exists_selected_snoc :
    (∃ before later, Selected (entries ++ [e]) before later) ↔
      e = (.activate, .ok ()) ∨
        (∀ file, e ≠ (.create file, .ok ())) ∧ ∃ before later, Selected entries before later := by
  constructor
  · rintro ⟨before, later, h⟩
    rcases split_snoc h.activated with ⟨-, rfl, -⟩ | ⟨earlier, rfl, rfl⟩
    · exact .inl rfl
    · refine .inr ⟨fun file heq => h.kept file (by simp [heq]), before, earlier, rfl, fun hmem => ?_,
        fun file hmem => ?_⟩
      · exact h.last (by simp [hmem])
      · exact h.kept file (by simp [hmem])
  · intro h
    by_cases hlast : e = (.activate, .ok ())
    · exact ⟨entries, [], by rw [hlast], by simp, by simp⟩
    · obtain ⟨hcreate, before, later, hselected⟩ := h.resolve_left hlast
      refine ⟨before, later ++ [e], by simp [hselected.activated], fun hmem => ?_, fun file hmem => ?_⟩
      · rcases List.mem_append.1 hmem with hmem | hmem
        · exact hselected.last hmem
        · exact hlast (List.mem_singleton.1 hmem).symm
      · rcases List.mem_append.1 hmem with hmem | hmem
        · exact hselected.kept file hmem
        · exact hcreate file (List.mem_singleton.1 hmem).symm

theorem mark_eq_true_iff (marked : Bool) :
    Entry.mark marked e = true ↔ e = (.activate, .ok ()) ∨ (∀ file, e ≠ (.create file, .ok ())) ∧ marked = true := by
  obtain ⟨r, answer⟩ := e
  cases r <;> cases answer <;> simp [Entry.mark]

/-- **The partition is marked exactly if an image was activated and no file was created since.** -/
theorem activated_iff (h : p.activated = true ↔ ∃ before later, Selected entries before later)
    (requests : List Request) :
    (p.after requests).activated = true ↔ ∃ before later, Selected (entries ++ p.history requests) before later := by
  induction requests generalizing entries p with
  | nil => simpa [after, history] using h
  | cons r requests ih =>
    have hstep : (r.run p).2.activated = true ↔
        ∃ before later, Selected (entries ++ [(r, (r.run p).1)]) before later := by
      rw [activated_run, mark_eq_true_iff, exists_selected_snoc, h]
    simpa [after, history] using ih hstep

/-! ## The image and its history -/

theorem written_append (entries later : List Entry) :
    written (entries ++ later) = written entries ++ written later := by
  simp [written, List.filterMap_append]

theorem exists_history_split {requests : List Request} (h : p.history requests = before ++ later) :
    ∃ first second, p.history first = before ∧ (p.after first).history second = later ∧
      requests = first ++ second := by
  induction requests generalizing p before with
  | nil =>
    obtain ⟨rfl, rfl⟩ := List.append_eq_nil_iff.1 h.symm
    exact ⟨[], [], rfl, rfl, rfl⟩
  | cons r requests ih =>
    cases before with
    | nil => exact ⟨[], r :: requests, rfl, h, rfl⟩
    | cons e before =>
      obtain ⟨rfl, hrest⟩ := List.cons.inj h
      obtain ⟨first, second, rfl, rfl, rfl⟩ := ih hrest
      exact ⟨r :: first, second, rfl, rfl, rfl⟩

theorem Standing.holds (h : Standing entries p) (hunderway : Underway entries file since) (hsealed : Sealed since) :
    Holds p file (written since) := by
  cases h with
  | vacant _ _ none => exact absurd hunderway (none file since)
  | @holding file' since' current opened underway size image count within room closed full =>
    obtain ⟨rfl, rfl⟩ := underway.unique hunderway
    have hclosed := closed.2 hsealed
    refine ⟨⟨current, opened, hclosed, size⟩, image, ?_⟩
    rw [image, count, full hclosed, size]

theorem Standing.vacated (h : Standing entries p) (hselected : Selected entries before later)
    (hended : ∃ e ∈ later, e.ends = true) : p.file = none ∧ p.slot = .empty := by
  cases h with
  | vacant noFile empty _ => exact ⟨noFile, empty⟩
  | @holding file since current opened underway =>
    obtain ⟨e, hmem, hends⟩ := hended
    have hlater : later <:+ entries := by
      rw [hselected.activated]
      exact (List.suffix_cons _ later).trans (List.suffix_append before _)
    -- the file that is underway was created after the activation, or nothing has ended since
    rcases List.suffix_or_suffix_of_suffix hlater underway.since_suffix with hinner | houter
    · rcases List.suffix_cons_iff.1 hinner with heq | hinner
      · exact absurd (heq ▸ List.mem_cons_self) (hselected.kept file)
      · have hlasting := underway.lasting e (hinner.subset hmem)
        rw [hends] at hlasting
        cases hlasting
    · exact absurd (houter.subset List.mem_cons_self) (hselected.kept file)

/-- **An image is held after its activation as long as nothing ends its file.** -/
theorem Standing.holds_iff {q : Partition} (hq : Standing before q) (hp : Standing entries p)
    (hselected : Selected entries before later) (hunderway : Underway before file since) (hsealed : Sealed since) :
    Holds p file (written since) ↔ ∀ e ∈ later, e.ends = false := by
  constructor
  · intro hholds e hmem
    obtain ⟨current, hopened, -⟩ := hholds.opened
    refine Bool.eq_false_iff.2 fun hends => ?_
    rw [(hp.vacated hselected ⟨e, hmem, hends⟩).1] at hopened
    cases hopened
  · intro hlasting
    have hstill : Underway entries file (since ++ (.activate, .ok ()) :: later) := by
      rw [hselected.activated]
      exact hunderway.append (List.forall_mem_cons.2 ⟨rfl, hlasting⟩)
    have hbefore := hq.holds hunderway hsealed
    have hafter := hp.holds hstill (hsealed.mono (List.subset_append_left _ _))
    -- the file is as long as it was when it was activated, so nothing was written in between
    have hnothing : written ((.activate, .ok ()) :: later) = [] := by
      have hlength := hafter.whole
      rw [hafter.slot, written_append, List.length_append, ← hbefore.slot, hbefore.whole] at hlength
      exact List.length_eq_zero_iff.1 (Nat.add_eq_left.1 hlength)
    have hslot := hafter.slot
    rw [written_append, hnothing, List.append_nil] at hslot
    exact ⟨hafter.opened, hslot, hafter.whole⟩

/-- **A marked partition holds the image that was activated last exactly if nothing ended its file since**, whatever was
asked of it and in which order.  The mark itself tells that an image was activated and no file created since; where the
file was ended, by an abort, by a failed attempt to create the next one or by a mark as rejected or aborted, nothing is
left of it. -/
theorem holds_activated_iff (capacity : Nat) (boot : ImageState) (requests : List Request) :
    ((after { capacity, state := boot } requests).activated = true ↔
      ∃ before later, Selected (history { capacity, state := boot } requests) before later) ∧
    ∀ before later, Selected (history { capacity, state := boot } requests) before later →
      ∃ file since, Underway before file since ∧ Sealed since ∧
        (Holds (after { capacity, state := boot } requests) file (written since) ↔ ∀ e ∈ later, e.ends = false) ∧
        ((∃ e ∈ later, e.ends = true) → (after { capacity, state := boot } requests).file = none ∧
          (after { capacity, state := boot } requests).slot = .empty) := by
  have hunmarked : ({ capacity, state := boot } : Partition).activated = true ↔
      ∃ before later, Selected [] before later := by
    refine ⟨nofun, fun ⟨before, later, h⟩ => ?_⟩
    have hsplit := h.activated
    simp at hsplit
  refine ⟨by simpa using activated_iff hunmarked requests, fun before later hselected => ?_⟩
  obtain ⟨first, second, hbefore, hsecond, -⟩ := exists_history_split hselected.activated
  have hfirst := standing_after capacity boot first
  rw [hbefore] at hfirst
  have hanswer : (after { capacity, state := boot } first).activate.1 = .ok () := by
    cases second with
    | nil => cases hsecond
    | cons r second =>
      obtain ⟨rfl, hanswer⟩ := Prod.mk.inj (List.cons.inj hsecond).1
      exact hanswer
  obtain ⟨file, since, hunderway, hsealed⟩ := (activate_eq_ok_iff hfirst).1 hanswer
  have hlast := standing_after capacity boot requests
  exact ⟨file, since, hunderway, hsealed, hfirst.holds_iff hlast hselected hunderway hsealed, hlast.vacated hselected⟩

def receiving : List Request := [.create unsigned, .write 0 [0x78], .close unsigned]

theorem accepted_holds_activated :
    ∃ file since, Holds (after {} (receiving ++ [.setState .testing, .activate, .setState .accepted])) file
      (written since) := by
  have hselected : Selected (history {} (receiving ++ [.setState .testing, .activate, .setState .accepted]))
      [(.create unsigned, .ok ()), (.write 0 [0x78], .ok ()), (.close unsigned, .ok ()), (.setState .testing, .ok ())]
      [(.setState .accepted, .ok ())] := ⟨rfl, by simp, by simp⟩
  obtain ⟨file, since, -, -, hholds, -⟩ := (holds_activated_iff _ _ _).2 _ _ hselected
  exact ⟨file, since, hholds.2 (by simp [Entry.ends])⟩

/-- **A marked partition need not hold the image that was activated**: it was discarded since. -/
theorem discarded_stays_activated :
    ¬ ∀ (capacity : Nat) (boot : ImageState) (requests : List Request),
      (after { capacity, state := boot } requests).activated = true →
      ∃ before later file since, Selected (history { capacity, state := boot } requests) before later ∧
        Underway before file since ∧ Holds (after { capacity, state := boot } requests) file (written since) := by
  intro hholds
  obtain ⟨before, later, file, since, -, -, ⟨current, hopened, -⟩, -, -⟩ :=
    hholds 4194304 .unknown (receiving ++ [.activate, .abort]) rfl
  cases hopened

end Firmware.Partition
