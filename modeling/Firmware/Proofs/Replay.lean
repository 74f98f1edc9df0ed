import Firmware.Proofs.Course
import Firmware.Proofs.Step
/-!
# Replay — the flash device is what the calls made of it

A device touches its flash device through calls alone, and each call is in the journal.  So the journal tells what the
flash device was at any moment of a run: the calls made before that moment, replayed on the flash device of the start.
-/
namespace Firmware

variable {C F : Type}

theorem Device.calls_note_note (d : Device C F) (first second : Call) :
    ((d.note first).note second).calls = d.calls ++ [first, second] := by
  rw [calls_note, calls_note, List.append_assoc]
  rfl

variable [FlashDevice F]

/-- What a call leaves of a flash device; calls to other parts leave it as it is. -/
def Call.onFlash (f : F) : Call → F
  | .create file _ => (FlashDevice.create f file).2
  | .write offset block _ => (FlashDevice.write f offset block).2
  | .close file _ => (FlashDevice.close f file).2
  | .abort _ => (FlashDevice.abort f).2
  | .activate _ => (FlashDevice.activate f).2
  | .setState state _ => (FlashDevice.setState f state).2
  | .connect .. | .disconnect _ | .fetch .. | .wait _ | .acknowledge .. | .drive .. | .tell _ => f

def FlashDevice.replay (f : F) (calls : List Call) : F := calls.foldl Call.onFlash f

theorem FlashDevice.replay_snoc (f : F) (calls : List Call) (call : Call) :
    replay f (calls ++ [call]) = call.onFlash (replay f calls) := by
  simp only [replay, List.foldl_append, List.foldl_cons, List.foldl_nil]

theorem Call.onFlash_of_isOutward (f : F) {call : Call} (h : call.isOutward = true) : call.onFlash f = f := by
  cases call <;> first | rfl | cases h

/-- **A step of a transfer does to the flash device what its calls do**, and none of them accepts an image. -/
theorem Transfer.Step.replays {d d' : Device C F} (h : Step d d') :
    ∃ calls, d'.calls = d.calls ++ calls ∧ d'.flash = FlashDevice.replay d.flash calls ∧
      ∀ answer, Call.setState .accepted answer ∉ calls := by
  cases h with
  | opened answered | unopened answered | written _ answered _ | dropped _ answered _ =>
    exact ⟨_, Device.calls_note _ _, (congrArg Prod.snd answered).symm, by simp⟩
  | finished _ answered marked | unmarked _ answered marked | rejected _ answered marked
  | discarded _ answered _ marked =>
    refine ⟨_, Device.calls_note_note _ _ _, ?_, by simp⟩
    simp only [FlashDevice.replay, List.foldl_cons, List.foldl_nil, Call.onFlash, answered, marked, Device.note]

namespace Device

/-- `calls` lead from `d₀` to `d`: they were added to the journal, they made the flash device what it is, and each of
them stands where `K` lets it stand after the calls before it. -/
structure Leads (K : List Call → Call → Prop) (d₀ : Device C F) (calls : List Call) (d : Device C F) : Prop where
  journal : d.calls = d₀.calls ++ calls
  flash : d.flash = FlashDevice.replay d₀.flash calls
  each : ∀ before call after, calls = before ++ call :: after → K before call

variable {K : List Call → Call → Prop} {d₀ d d' : Device C F} {calls : List Call}

theorem leads_refl (K : List Call → Call → Prop) (d : Device C F) : Leads K d [] d :=
  ⟨by simp, rfl, by simp⟩

/-- **One more call.** -/
theorem Leads.snoc {call : Call} (h : Leads K d₀ calls d) (hjournal : d'.journal = call :: d.journal)
    (hflash : d'.flash = call.onFlash d.flash) (hcall : K calls call) : Leads K d₀ (calls ++ [call]) d' := by
  refine ⟨?_, ?_, fun before call' after hsplit => ?_⟩
  · rw [Device.calls_of_journal hjournal, h.journal, List.append_assoc]
  · rw [hflash, h.flash, FlashDevice.replay_snoc]
  · rcases split_append hsplit with ⟨tail, rfl, -⟩ | ⟨head, rfl, hlast⟩
    · exact h.each before call' tail rfl
    · obtain ⟨rfl, hlast⟩ | ⟨-, hlast⟩ := List.append_eq_singleton_iff.1 hlast.symm
      · obtain ⟨rfl, -⟩ := List.cons.inj hlast
        rwa [List.append_nil]
      · cases hlast

end Device
end Firmware
