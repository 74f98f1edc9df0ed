import Firmware.Proofs.Transfer
import Firmware.Refusal
/-!
# Overflow — how exactly the declared size bounds a block

A transfer adds up its octets in 32 bits: the length of a block counts modulo 2 ^ 32, and the sum is held at the largest
number.  So a block that goes beyond the declared size is refused, except where these 32 bits do not show it
(`write_exact_iff`): a block of 2 ^ 32 octets or more, or a file declared as large as a number can be.  The flash device
is asked then, and counts for itself.
-/
namespace Firmware.Transfer

/-- **The sum in 32 bits exceeds a number** exactly if the sum does and the number is not the largest. -/
theorem lt_saturatingAdd_iff {a b n : UInt32} :
    n < saturatingAdd a b ↔ n.toNat < a.toNat + b.toNat ∧ n.toNat + 1 < UInt32.size := by
  have ha := a.toNat_lt_size
  have hn := n.toNat_lt_size
  unfold saturatingAdd
  split
  · rename_i hsum
    rw [UInt32.lt_iff_toNat_lt, UInt32.toNat_add, Nat.mod_eq_of_lt (by simpa only [UInt32.size] using hsum)]
    omega
  · rename_i hsum
    have hmax : (0xFFFFFFFF : UInt32).toNat + 1 = UInt32.size := rfl
    rw [UInt32.lt_iff_toNat_lt]
    omega

section Exact

variable {C F : Type} [FlashDevice F] {d : Device C F} {expected written offset : UInt32} {block : Bytes}

/-- A block is written as exact numbers demand: out of its place or beyond the declared size it is refused without the
flash device, and otherwise it is handed over once and counted if it is taken whole. -/
structure Exact (d : Device C F) (expected written offset : UInt32) (block : Bytes) : Prop where
  misplaced : offset ≠ written → Transfer.write offset block d = .error (.nonSequential written offset) d
  beyond : offset = written → expected.toNat < written.toNat + block.length →
    Transfer.write offset block d = .error .overflow d
  within : offset = written → written.toNat + block.length ≤ expected.toNat →
    ((Transfer.write offset block).after d).calls =
        d.calls ++ [.write offset block (FlashDevice.write d.flash offset block).1] ∧
      ((FlashDevice.write d.flash offset block).1 = .ok block.length →
        ∃ count, (Transfer.write offset block).result d = .ok count ∧
          ((Transfer.write offset block).after d).transfer.phase = .receiving expected count ∧
          count.toNat = written.toNat + block.length)

theorem write_ne_overflow (hphase : d.transfer.phase = .receiving expected offset)
    (hfits : ¬ expected < saturatingAdd offset (UInt32.ofNat block.length)) :
    Transfer.write offset block d ≠ .error .overflow d := fun hrefused => by
  obtain ⟨hcalls, -⟩ := write_of_fits hphase hfits
  rw [Task.after_of_error hrefused] at hcalls
  simp at hcalls

/-- **A block is written as exact numbers demand unless it goes beyond the declared size and 32 bits do not show it.** -/
theorem write_exact_iff (hphase : d.transfer.phase = .receiving expected written) :
    Exact d expected written offset block ↔
      (offset = written → expected.toNat < written.toNat + block.length →
        expected.toNat < written.toNat + block.length % UInt32.size ∧ expected.toNat + 1 < UInt32.size) := by
  have hlength : (UInt32.ofNat block.length).toNat = block.length % UInt32.size := UInt32.toNat_ofNat'
  constructor
  · rintro hexact rfl hbeyond
    rw [← hlength, ← lt_saturatingAdd_iff]
    exact Classical.byContradiction fun hfits => write_ne_overflow hphase hfits (hexact.beyond rfl hbeyond)
  · intro hshows
    refine ⟨fun hoffset => ?_, ?_, ?_⟩
    · exact write_of_misfit (hphase ▸ misfit?_of_ne hoffset block)
    · rintro rfl hbeyond
      have hoverflow : expected < saturatingAdd offset (UInt32.ofNat block.length) := by
        rw [lt_saturatingAdd_iff, hlength]
        exact hshows rfl hbeyond
      exact write_of_misfit (hphase ▸ misfit?_of_overflow hoverflow)
    · rintro rfl hwithin
      have hexpected := expected.toNat_lt_size
      have hcount : (offset + UInt32.ofNat block.length).toNat = offset.toNat + block.length := by
        rw [UInt32.toNat_add, hlength]
        simp only [UInt32.size] at hexpected ⊢
        omega
      have hfits : ¬ expected < saturatingAdd offset (UInt32.ofNat block.length) := by
        rw [lt_saturatingAdd_iff, hlength]
        have hle := Nat.mod_le block.length UInt32.size
        omega
      obtain ⟨hcalls, htaken⟩ := write_of_fits hphase hfits
      refine ⟨hcalls, fun hanswer => ?_⟩
      obtain ⟨hresult, hafter⟩ := htaken hanswer
      exact ⟨_, hresult, hafter, hcount⟩

end Exact

/-! ## Blocks refused unread -/

def refusalCalls (offset : UInt32) (block : Bytes) : UpdateError → List Call
  | .flash fault => [.write offset block (.error fault)]
  | _ => []

/-- **What is refused unread is what a write refuses**: the same error, and the same device once the call is noted. -/
theorem write_of_refused {C : Type} {offset : UInt32} {block : Bytes} {d d' : Device C FaultyPartition} {e : UpdateError}
    (h : refused? offset block.length d = some (e, d')) :
    write offset block d = .error e { d' with journal := refusalCalls offset block e ++ d'.journal } := by
  unfold refused? at h
  cases hphase : d.transfer.phase with
  | receiving expected written =>
    simp only [hphase] at h
    split at h
    · rename_i hoffset
      cases h
      exact write_of_misfit (hphase ▸ misfit?_of_ne hoffset block)
    rename_i hoffset
    obtain rfl := Decidable.not_not.1 hoffset
    split at h
    · rename_i hoverflow
      cases h
      exact write_of_misfit (hphase ▸ misfit?_of_overflow hoverflow)
    rename_i hfits
    obtain ⟨fault, hrefusal, heq⟩ := Option.map_eq_some_iff.1 h
    cases heq
    have hwrite : FlashDevice.write d.flash offset block = (.error fault, _) :=
      FaultyPartition.write_of_refusal hrefusal
    unfold write
    rw [Device.bind_transferNow]
    simp only [Task.throw_bind, hphase, ne_eq, not_true_eq_false, if_false, hfits]
    rw [Task.bind_of_ok (Device.attempt_write offset block d), hwrite]
    rfl
  | idle | validating | ready | failed =>
    simp only [hphase] at h
    cases h
    exact write_of_misfit (by rw [hphase, misfit?])

/-! ## A file of one octet -/

def opened : Device Unit FaultyPartition where
  source := ()
  flash := { partition := { file := some { size := 1 } } }
  transfer := { phase := .receiving 1 0, file := some { path := .empty, size := 1, signature := none } }
  uplink := { topic := .empty }

theorem opened_exact : Exact opened 1 0 0 [0x61, 0x62] :=
  (write_exact_iff rfl).2 fun _ _ => by decide

/-- **A block whose length is 0 modulo 2 ^ 32 is handed to the flash device**, whatever size was declared. -/
theorem outsize_slips_through :
    ¬ ∀ (C F : Type) [FlashDevice F] (d : Device C F) (expected written offset : UInt32) (block : Bytes),
      d.transfer.phase = .receiving expected written → written ≤ expected → Exact d expected written offset block := by
  intro hexact
  obtain ⟨block, hlength⟩ : ∃ block : Bytes, block.length = 4294967296 :=
    ⟨List.replicate 4294967296 0x61, List.length_replicate⟩
  have hbeyond := (hexact Unit FaultyPartition opened 1 0 0 block rfl (by decide)).beyond rfl (by rw [hlength]; decide)
  obtain ⟨d', hrefused⟩ : ∃ d', refused? 0 block.length opened = some (.flash .writeFailed, d') := by
    rw [hlength]
    exact ⟨_, rfl⟩
  rw [write_of_refused hrefused] at hbeyond
  cases hbeyond

end Firmware.Transfer
