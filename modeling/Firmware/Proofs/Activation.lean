import Firmware.Proofs.Slot
/-!
# Activation — when an image may be activated

A partition activates an image exactly while a receive file is underway that was closed since it was created
(`activate_eq_ok_iff`).  Only what ends the file takes that back.  So a close that is refused shuts the way to
activation unless the file had been closed before: `activates_after_refused_close_iff` says when it does not.
-/
namespace Firmware.Partition

variable {entries later since : List Entry} {file : ReceiveFile} {p : Partition}

/-- A file is underway that was closed since it was created. -/
def Activatable (entries : List Entry) : Prop := ∃ file since, Underway entries file since ∧ Sealed since

/-! ## What activation asks for -/

/-- **An image may be activated exactly while a closed file is underway.** -/
theorem activate_eq_ok_iff (h : Standing entries p) : p.activate.1 = .ok () ↔ Activatable entries := by
  cases h with
  | vacant noFile empty none =>
    have hrefused : p.activate.1 = .error .activateFailed := by simp [activate, isClosed, noFile]
    rw [hrefused]
    constructor
    · intro hok
      cases hok
    · rintro ⟨file, since, hunderway, -⟩
      exact absurd hunderway (none file since)
  | @holding file since current opened underway size image count within room closed full =>
    have hclosed : p.activate.1 = .ok () ↔ current.closed = true := by
      cases hc : current.closed <;> simp [activate, isClosed, opened, hc]
    rw [hclosed, closed]
    constructor
    · intro hsealed
      exact ⟨file, since, underway, hsealed⟩
    · rintro ⟨file', since', hunderway, hsealed⟩
      obtain ⟨rfl, rfl⟩ := underway.unique hunderway
      exact hsealed

/-! ## Entries that close nothing -/

theorem Sealed.mono (h : Sealed since) (hsub : since ⊆ entries) : Sealed entries := by
  obtain ⟨closing, hmem⟩ := h
  exact ⟨closing, hsub hmem⟩

theorem Underway.append (h : Underway entries file since) (hlasting : ∀ e ∈ later, e.ends = false) :
    Underway (entries ++ later) file (since ++ later) := by
  obtain ⟨before, rfl⟩ := h.created
  refine ⟨⟨before, by simp⟩, fun e hmem => ?_⟩
  rcases List.mem_append.1 hmem with hmem | hmem
  · exact h.lasting e hmem
  · exact hlasting e hmem

theorem Underway.of_append (h : Underway (entries ++ later) file since) :
    since <:+ later ∨ ∃ earlier, since = earlier ++ later ∧ Underway entries file earlier := by
  obtain ⟨before, hsplit⟩ := h.created
  rcases List.append_eq_append_iff.1 hsplit with ⟨middle, -, hlater⟩ | ⟨middle, hentries, hsince⟩
  · refine .inl ?_
    rw [hlater]
    exact (List.suffix_cons _ since).trans (List.suffix_append middle _)
  · cases middle with
    | nil =>
      refine .inl ?_
      rw [List.nil_append] at hsince
      rw [← hsince]
      exact List.suffix_cons _ since
    | cons created earlier =>
      rw [List.cons_append] at hsince
      obtain ⟨rfl, rfl⟩ := List.cons.inj hsince
      refine .inr ⟨earlier, rfl, ⟨before, hentries⟩, fun e hmem => ?_⟩
      exact h.lasting e (List.mem_append_left later hmem)

/-- **Entries that close nothing keep an image activatable as long as they do not end its file**, and never make one
so. -/
theorem activatable_append_iff (hunclosed : ¬ Sealed later) :
    Activatable (entries ++ later) ↔ Activatable entries ∧ ∀ e ∈ later, e.ends = false := by
  constructor
  · rintro ⟨file, since, hunderway, hsealed⟩
    rcases hunderway.of_append with hsuffix | ⟨earlier, rfl, hearlier⟩
    · exact absurd (hsealed.mono hsuffix.subset) hunclosed
    · refine ⟨⟨file, earlier, hearlier, ?_⟩, fun e hmem => hunderway.lasting e (List.mem_append_right earlier hmem)⟩
      obtain ⟨closing, hmem⟩ := hsealed
      rcases List.mem_append.1 hmem with hmem | hmem
      · exact ⟨closing, hmem⟩
      · exact absurd ⟨closing, hmem⟩ hunclosed
  · rintro ⟨⟨file, since, hunderway, hsealed⟩, hlasting⟩
    exact ⟨file, _, hunderway.append hlasting, hsealed.mono (List.subset_append_left since later)⟩

/-! ## After a refused close -/

theorem standing_after (capacity : Nat) (boot : ImageState) (requests : List Request) :
    Standing (history { capacity, state := boot } requests) (after { capacity, state := boot } requests) := by
  have hblank : Standing [] ({ capacity, state := boot } : Partition) :=
    .vacant rfl rfl fun file since hunderway => by
      obtain ⟨before, hsplit⟩ := hunderway.created
      simp at hsplit
  simpa using hblank.run requests

/-- **After a close was refused, and while none is accepted, an image is activated exactly if its file had been closed
before and nothing ended it since.**  So a file that was never closed stays shut. -/
theorem activates_after_refused_close_iff (capacity : Nat) (boot : ImageState) (requests : List Request)
    {before later : List Entry} {closing : ReceiveFile} {e : FlashError}
    (hsplit : history { capacity, state := boot } requests = before ++ (.close closing, .error e) :: later)
    (hunclosed : ∀ file, (Request.close file, Except.ok ()) ∉ later) :
    (after { capacity, state := boot } requests).activate.1 = .ok () ↔
      Activatable before ∧ ∀ entry ∈ later, entry.ends = false := by
  have hrefused : ¬ Sealed ((.close closing, .error e) :: later) := by
    rintro ⟨file, hmem⟩
    rcases List.mem_cons.1 hmem with heq | hmem
    · cases heq
    · exact hunclosed file hmem
  rw [activate_eq_ok_iff (standing_after capacity boot requests), hsplit, activatable_append_iff hrefused,
    List.forall_mem_cons]
  exact and_congr_right' (and_iff_right rfl)

/-! ## An image with the wrong digest -/

/-- **A wrong digest refuses the close**, and the digest under way is used up.  Nothing is taken back from a file that is
closed by then. -/
theorem close_of_mismatch (p : Partition) (file : ReceiveFile) {current : OpenFile} {hasher : Sha256.Hasher}
    {signature : Signature} (hfile : p.file = some current) (hfull : current.written = current.size)
    (hsigned : file.signature = some signature) (hcert : signature.certPath.isEmpty = false)
    (hhasher : current.hasher = some hasher) (hwrong : hasher.finish ≠ signature.data) :
    p.close file = (.error .signatureCheckFailed, { p with file := some { current with hasher := none } }) := by
  unfold close
  rw [hfile, hsigned]
  simp only [hfull, ne_eq, not_true_eq_false, if_false, verify, hcert, Bool.false_eq_true, hhasher, hwrong]

theorem history_append (p : Partition) (requests requests' : List Request) :
    p.history (requests ++ requests') = p.history requests ++ (p.after requests).history requests' := by
  induction requests generalizing p with
  | nil => rfl
  | cons r requests ih => simp only [List.cons_append, history, after, ih]

theorem signer_fits : "signer".utf8ByteSize ≤ 64 := by decide

/-- A file of one octet, signed with a digest that its octet does not have. -/
def missigned : ReceiveFile where
  path := .empty
  size := 1
  signature := some { certPath := ⟨"signer", signer_fits⟩, data := List.replicate 32 0 }

def unsigned : ReceiveFile := { missigned with signature := none }

theorem missigned_mismatch : (Sha256.Hasher.absorb {} [0x78]).finish ≠ List.replicate 32 0 := by decide +kernel

theorem missigned_stays_shut :
    (after {} [.create missigned, .write 0 [0x78], .close missigned, .setState .testing]).activate.1 ≠ .ok () := by
  have hclose := close_of_mismatch (after {} [.create missigned, .write 0 [0x78]]) missigned rfl rfl rfl rfl rfl
    missigned_mismatch
  have hsplit : history {} [.create missigned, .write 0 [0x78], .close missigned, .setState .testing] =
      [(.create missigned, .ok ()), (.write 0 [0x78], .ok ())] ++
        (.close missigned, .error .signatureCheckFailed) :: [(.setState .testing, .ok ())] := by
    refine (history_append {} [.create missigned, .write 0 [0x78]] _).trans ?_
    simp only [history, Request.run, hclose]
    rfl
  have hunclosed : ∀ file, (Request.close file, Except.ok ()) ∉
      [((.setState .testing, .ok ()) : Entry)] := by simp
  rw [ne_eq, activates_after_refused_close_iff _ _ _ hsplit hunclosed]
  rintro ⟨⟨file, since, hunderway, hsealed⟩, -⟩
  obtain ⟨closing, hmem⟩ := hsealed.mono ((List.suffix_cons _ since).trans hunderway.since_suffix).subset
  simp at hmem

/-- **A close that is refused does not keep an image from being activated**: the file was closed without its signature
before its digest was found wrong. -/
theorem reclosed_activates :
    ¬ ∀ (capacity : Nat) (boot : ImageState) (requests : List Request) (before later : List Entry)
      (closing : ReceiveFile) (e : FlashError),
      history { capacity, state := boot } requests = before ++ (.close closing, .error e) :: later →
      (∀ file, (Request.close file, Except.ok ()) ∉ later) →
      (after { capacity, state := boot } requests).activate.1 ≠ .ok () := by
  intro hshut
  let opening : List Request := [.create missigned, .write 0 [0x78], .close unsigned]
  have hclose := close_of_mismatch (after {} opening) missigned rfl rfl rfl rfl rfl missigned_mismatch
  have hsplit : history {} (opening ++ [.close missigned]) =
      [(.create missigned, .ok ()), (.write 0 [0x78], .ok ()), (.close unsigned, .ok ())] ++
        (.close missigned, .error .signatureCheckFailed) :: [] := by
    rw [history_append]
    simp only [history, Request.run, hclose]
    rfl
  refine hshut _ _ (opening ++ [.close missigned]) _ [] missigned _ hsplit (by simp) ?_
  have hafter : after {} (opening ++ [.close missigned]) = ((after {} opening).close missigned).2 := rfl
  rw [hafter, hclose]
  rfl

end Firmware.Partition
