import Firmware.Flash.Faulty
/-!
# Partition — what a partition holds while it receives a file

`Receives` ties the partition's own record of the receive file to the octets written: the count, and the digest under
way, are those of the image.  Opening a file establishes it, every block taken whole keeps it, and a file that closes is
complete and has the digest that was asked for.
-/
namespace Firmware

open Sha256 (Hasher)

namespace Partition

/-! ## What an operation does not touch -/

theorem create_frame (p : Partition) (file : ReceiveFile) :
    ∃ state current slot activated, (p.create file).2 = { p with state, file := current, slot, activated } ∧
      (state = p.state ∨ state = .unknown) := by
  have hcleared : ∃ current slot, (if p.file.isSome then p.discard else p) = { p with file := current, slot } := by
    by_cases hfile : p.file.isSome = true
    · rw [if_pos hfile]
      exact ⟨none, .empty, rfl⟩
    · rw [if_neg hfile]
      exact ⟨p.file, p.slot, rfl⟩
  obtain ⟨current, slot, hcleared⟩ := hcleared
  unfold create
  rw [hcleared]
  simp only
  split
  · exact ⟨p.state, current, slot, p.activated, rfl, .inl rfl⟩
  · exact ⟨_, _, _, _, rfl, .inr rfl⟩

theorem write_frame (p : Partition) (offset : UInt32) (block : Bytes) :
    ∃ current slot, (p.write offset block).2 = { p with file := current, slot } := by
  unfold write
  split
  · exact ⟨p.file, p.slot, rfl⟩
  split
  · exact ⟨p.file, p.slot, rfl⟩
  split
  · exact ⟨p.file, p.slot, rfl⟩
  · exact ⟨_, _, rfl⟩

theorem close_frame (p : Partition) (file : ReceiveFile) :
    ∃ current, (p.close file).2 = { p with file := current } := by
  unfold close
  split
  · exact ⟨p.file, rfl⟩
  split
  · exact ⟨p.file, rfl⟩
  split
  · exact ⟨_, rfl⟩
  split <;> exact ⟨_, rfl⟩

theorem activate_frame (p : Partition) : ∃ activated, p.activate.2 = { p with activated } := by
  unfold activate
  split
  · exact ⟨true, rfl⟩
  · exact ⟨p.activated, rfl⟩

/-! ## The room for images stays what it is -/

theorem capacity_cleared (p : Partition) : (if p.file.isSome then p.discard else p).capacity = p.capacity := by
  by_cases hfile : p.file.isSome = true
  · rw [if_pos hfile]
    rfl
  · rw [if_neg hfile]

theorem capacity_create (p : Partition) (file : ReceiveFile) : (p.create file).2.capacity = p.capacity := by
  obtain ⟨_, _, _, _, hframe, -⟩ := p.create_frame file
  rw [hframe]

theorem capacity_write (p : Partition) (offset : UInt32) (block : Bytes) :
    (p.write offset block).2.capacity = p.capacity := by
  obtain ⟨_, _, hframe⟩ := p.write_frame offset block
  rw [hframe]

theorem capacity_close (p : Partition) (file : ReceiveFile) : (p.close file).2.capacity = p.capacity := by
  obtain ⟨_, hframe⟩ := p.close_frame file
  rw [hframe]

theorem capacity_activate (p : Partition) : p.activate.2.capacity = p.capacity := by
  obtain ⟨_, hframe⟩ := p.activate_frame
  rw [hframe]

theorem capacity_setState (p : Partition) (state : ImageState) : (p.setState state).2.capacity = p.capacity := by
  unfold setState
  split
  · cases state with
    | rejected => simp only; split <;> rfl
    | unknown | testing | accepted | aborted => rfl
  · rfl

/-! ## A file that is being received -/

/-- The partition has `file` open, and `image` is what was written to it. -/
structure Receives (p : Partition) (file : ReceiveFile) (image : Bytes) : Prop where
  opened : p.file = some
    { size := file.size
      written := UInt32.ofNat image.length
      hasher := if file.signature.isSome then some (Hasher.absorb {} image) else none }
  holds : p.image = image
  fits : image.length ≤ file.size.toNat

theorem length_image (p : Partition) : p.image.length = p.slot.size := by
  simp only [Partition.image, Array.length_toList]
  rfl

theorem Receives.written_toNat {p : Partition} {file : ReceiveFile} {image : Bytes} (h : p.Receives file image) :
    (UInt32.ofNat image.length).toNat = image.length :=
  UInt32.toNat_ofNat_of_lt' (Nat.lt_of_le_of_lt h.fits file.size.toNat_lt)

/-- **An opened file is empty, and fits.** -/
theorem create_eq_ok {p q : Partition} {file : ReceiveFile} (h : p.create file = (.ok (), q)) :
    q.Receives file [] ∧ q.state = .unknown ∧ q.capacity = p.capacity ∧ file.size.toNat ≤ p.capacity := by
  have hcleared := p.capacity_cleared
  unfold create at h
  generalize (if p.file.isSome then p.discard else p) = r at h hcleared
  simp only [hcleared] at h
  split at h
  · simp at h
  · simp only [Prod.mk.injEq, true_and] at h
    subst h
    exact ⟨⟨rfl, rfl, Nat.zero_le _⟩, rfl, rfl, by omega⟩

theorem create_eq_error {p q : Partition} {file : ReceiveFile} {e : FlashError} (h : p.create file = (.error e, q)) :
    q = if p.file.isSome then p.discard else p := by
  unfold create at h
  generalize (if p.file.isSome then p.discard else p) = r at h ⊢
  simp only at h
  split at h
  · exact (Prod.mk.inj h).2.symm
  · cases h

theorem create_of_room {file : ReceiveFile} (p : Partition) (h : file.size.toNat ≤ p.capacity) :
    ∃ q, p.create file = (.ok (), q) := by
  have hroom : ¬ p.capacity < file.size.toNat := Nat.not_lt.2 h
  unfold create
  simp only [capacity_cleared, hroom, if_false]
  exact ⟨_, rfl⟩

theorem le_length_of_write {p q : Partition} {offset : UInt32} {block : Bytes} {taken : Nat}
    (h : p.write offset block = (.ok taken, q)) : taken ≤ block.length := by
  unfold write at h
  split at h
  · simp at h
  split at h
  · simp at h
  split at h
  · simp at h
  · simp only [Prod.mk.injEq, Except.ok.injEq] at h
    rw [← h.1]
    exact (List.length_take_le' _ _)

/-- **A block taken whole continues the image.** -/
theorem Receives.write {p q : Partition} {file : ReceiveFile} {image : Bytes} (h : p.Receives file image)
    {offset : UInt32} {block : Bytes} (hrun : p.write offset block = (.ok block.length, q)) :
    q.Receives file (image ++ block) ∧ offset = UInt32.ofNat image.length ∧ q.state = p.state ∧
      q.capacity = p.capacity := by
  unfold Partition.write at hrun
  rw [h.opened] at hrun
  simp only [Bool.false_eq_true, if_false] at hrun
  split at hrun
  · simp at hrun
  rename_i hfits
  obtain ⟨hoff, hlen⟩ := not_or.1 hfits
  have hoff := Decidable.not_not.1 hoff
  simp only [Prod.mk.injEq, Except.ok.injEq] at hrun
  obtain ⟨htaken, rfl⟩ := hrun
  have hwhole : block.take (p.capacity - p.slot.size) = block := List.take_of_length_le (by
    rw [List.length_take] at htaken
    omega)
  rw [hwhole]
  have hwritten := h.written_toNat
  refine ⟨⟨?_, ?_, ?_⟩, hoff, rfl, rfl⟩
  · have hsum : UInt32.ofNat image.length + UInt32.ofNat block.length = UInt32.ofNat (image ++ block).length := by
      rw [List.length_append, UInt32.ofNat_add]
    simp only [hsum]
    split
    · simp only [Option.map_some, Hasher.absorb_append]
    · rfl
  · rw [← h.holds]
    exact image_append p.slot block p
  · rw [hoff] at hlen
    rw [List.length_append]
    omega

theorem Receives.write_whole {p : Partition} {file : ReceiveFile} {image : Bytes} (h : p.Receives file image)
    {block : Bytes} (hfits : image.length + block.length ≤ file.size.toNat) (hroom : file.size.toNat ≤ p.capacity) :
    ∃ q, p.write (UInt32.ofNat image.length) block = (.ok block.length, q) := by
  have hsize : p.slot.size = image.length := by rw [← length_image, h.holds]
  have hwhole : block.take (p.capacity - p.slot.size) = block := List.take_of_length_le (by omega)
  unfold Partition.write
  rw [h.opened]
  simp only [Bool.false_eq_true, if_false, hwhole]
  rw [if_neg]
  · exact ⟨_, rfl⟩
  · rw [h.written_toNat]
    simp
    omega

/-- **A file that closes is complete, and has the digest that it was signed with.** -/
theorem Receives.close {p q : Partition} {file : ReceiveFile} {image : Bytes} (h : p.Receives file image)
    (hrun : p.close file = (.ok (), q)) :
    q.isClosed = true ∧ q.image = image ∧ image.length = file.size.toNat ∧ q.state = p.state ∧
      ∀ signature, file.signature = some signature → Sha256.digest image = signature.data := by
  unfold Partition.close at hrun
  rw [h.opened] at hrun
  simp only at hrun
  split at hrun
  · simp at hrun
  rename_i hfull
  have hlen : image.length = file.size.toNat := by
    rw [← h.written_toNat, Decidable.not_not.1 hfull]
  split at hrun
  · rename_i hsig
    simp only [Prod.mk.injEq, true_and] at hrun
    subst hrun
    exact ⟨rfl, h.holds, hlen, rfl, fun s hs => by rw [hsig] at hs; cases hs⟩
  · rename_i signature hsig
    simp only [verify, hsig, Option.isSome_some, if_true] at hrun
    by_cases hcert : signature.certPath.isEmpty
    · simp [hcert] at hrun
    by_cases hdigest : (Hasher.absorb {} image).finish = signature.data
    · simp only [hcert, hdigest, if_true, if_false, Prod.mk.injEq, true_and, Bool.false_eq_true] at hrun
      subst hrun
      refine ⟨rfl, h.holds, hlen, rfl, fun s hs => ?_⟩
      rw [hsig] at hs
      cases hs
      exact hdigest
    · simp [hcert, hdigest] at hrun

theorem Receives.close_complete {p : Partition} {file : ReceiveFile} {image : Bytes} (h : p.Receives file image)
    (hfull : image.length = file.size.toNat)
    (hsigned : ∀ signature, file.signature = some signature →
      signature.certPath.isEmpty = false ∧ Sha256.digest image = signature.data) :
    ∃ q, p.close file = (.ok (), q) := by
  have hwritten : UInt32.ofNat image.length = file.size := by
    rw [← UInt32.toNat_inj, h.written_toNat, hfull]
  unfold Partition.close
  rw [h.opened]
  simp only [hwritten, ne_eq, not_true_eq_false, if_false]
  cases hsig : file.signature with
  | none => exact ⟨_, rfl⟩
  | some signature =>
    obtain ⟨hcert, hdigest⟩ := hsigned signature hsig
    have hfinish : (Hasher.absorb {} image).finish = signature.data := hdigest
    simp only [verify, hcert, hfinish, Option.isSome_some, if_true, if_false, Bool.false_eq_true]
    exact ⟨_, rfl⟩

theorem setState_testing {p : Partition} (h : p.state = .unknown) :
    p.setState .testing = (.ok (), { p with state := .testing }) := by
  simp only [setState, h]
  rfl

theorem setState_testing_eq_ok {p q : Partition} (h : p.setState .testing = (.ok (), q)) :
    q = { p with state := .testing } := by
  unfold setState at h
  split at h
  · simp only [Prod.mk.injEq, true_and] at h
    exact h.symm
  · simp at h

end Partition

namespace FaultyPartition

def sound (p : Partition) : FaultyPartition := { partition := p }

theorem orElse_eq_ok {fault : Option FlashError} {p q : Partition} {answer : Except FlashError Unit × Partition}
    (h : orElse fault p answer = (.ok (), q)) : answer = (.ok (), q) := by
  unfold orElse at h
  split at h
  · simp at h
  · exact h

theorem create_eq_ok {f g : FaultyPartition} {file : ReceiveFile} (h : f.create file = (.ok (), g)) :
    f.partition.create file = (.ok (), g.partition) := by
  unfold create at h
  simp only [Prod.mk.injEq] at h
  obtain ⟨hanswer, rfl⟩ := h
  exact orElse_eq_ok (Prod.ext hanswer rfl)

theorem write_eq_ok {f g : FaultyPartition} {offset : UInt32} {block : Bytes}
    (h : f.write offset block = (.ok block.length, g)) :
    f.partition.write offset block = (.ok block.length, g.partition) := by
  unfold write at h
  rcases hfault : f.writes.head?.join with _ | e | limit
  · simp only [hfault, Prod.mk.injEq] at h
    obtain ⟨hanswer, rfl⟩ := h
    exact Prod.ext hanswer rfl
  · simp [hfault] at h
  · simp only [hfault, Prod.mk.injEq] at h
    obtain ⟨hanswer, rfl⟩ := h
    have hwrite : f.partition.write offset (block.take limit) =
      (.ok block.length, (f.partition.write offset (block.take limit)).2) := Prod.ext hanswer rfl
    have hle := Partition.le_length_of_write hwrite
    have hwhole : block.take limit = block := List.take_of_length_le (by
      rw [List.length_take] at hle
      omega)
    rw [hwhole] at hwrite ⊢
    exact hwrite

theorem close_eq_ok {f g : FaultyPartition} {file : ReceiveFile} (h : f.close file = (.ok (), g)) :
    f.partition.close file = (.ok (), g.partition) := by
  unfold close at h
  simp only [Prod.mk.injEq] at h
  obtain ⟨hanswer, rfl⟩ := h
  exact orElse_eq_ok (Prod.ext hanswer rfl)

theorem setState_eq_ok {f g : FaultyPartition} {state : ImageState} (h : f.setState state = (.ok (), g)) :
    f.partition.setState state = (.ok (), g.partition) := by
  unfold setState at h
  simp only [Prod.mk.injEq] at h
  obtain ⟨hanswer, rfl⟩ := h
  exact orElse_eq_ok (Prod.ext hanswer rfl)

theorem create_of_unfaulted {f : FaultyPartition} {q : Partition} {file : ReceiveFile}
    (hnext : f.creates.head?.join = none) (h : f.partition.create file = (.ok (), q)) :
    f.create file = (.ok (), { f with partition := q, creates := f.creates.tail }) := by
  simp only [create, hnext, orElse, h]

theorem capacity_orElse (fault : Option FlashError) (p : Partition)
    {answer : Except FlashError Unit × Partition} (h : answer.2.capacity = p.capacity) :
    (orElse fault p answer).2.capacity = p.capacity := by
  unfold orElse
  split
  · rfl
  · exact h

theorem capacity_write (f : FaultyPartition) (offset : UInt32) (block : Bytes) :
    (f.write offset block).2.partition.capacity = f.partition.capacity := by
  unfold write
  rcases f.writes.head?.join with _ | e | limit
  · exact Partition.capacity_write _ _ _
  · rfl
  · exact Partition.capacity_write _ _ _

/-! A faultless partition does what the partition does, and stays faultless. -/

section Sound

variable {p q : Partition}

theorem write_sound {offset : UInt32} {block : Bytes} {n : Nat} (h : p.write offset block = (.ok n, q)) :
    (sound p).write offset block = (.ok n, sound q) := by
  simp only [sound, write, List.head?_nil, Option.join_none, h, List.tail_nil]

theorem close_sound {file : ReceiveFile} (h : p.close file = (.ok (), q)) :
    (sound p).close file = (.ok (), sound q) := by
  simp only [sound, close, orElse, List.head?_nil, Option.join_none, h, List.tail_nil]

theorem setState_sound {state : ImageState} (h : p.setState state = (.ok (), q)) :
    (sound p).setState state = (.ok (), sound q) := by
  simp only [sound, setState, orElse, List.head?_nil, Option.join_none, h, List.tail_nil]

theorem activate_sound (h : p.isClosed = true) :
    (sound p).activate = (.ok (), sound { p with activated := true }) := by
  simp only [sound, activate, orElse, List.head?_nil, Option.join_none, Partition.activate, h, if_true, List.tail_nil]

end Sound

end FaultyPartition
end Firmware
