import Firmware.Proofs.Keeping
/-!
# Journal — which calls a task can make

The journal only grows, so the calls of a run are what it adds.  A download calls the source, the clock, the log and
the flash device; it neither acknowledges nor activates, and discarding a transfer calls the flash device alone.
-/
open Firmware.Task (Keeps keeps_conclude)

namespace Firmware

def Call.isInward : Call → Bool
  | .create .. | .write .. | .close .. | .abort _ | .setState .. => true
  | .connect .. | .disconnect _ | .fetch .. | .activate _ | .wait _ | .acknowledge .. | .drive .. | .tell _ => false

/-- All calls but the two that end a request, an acknowledgement and an activation. -/
def Call.isAside : Call → Bool
  | .acknowledge .. | .activate _ => false
  | .connect .. | .disconnect _ | .fetch .. | .create .. | .write .. | .close .. | .abort _ | .setState .. | .wait _
  | .drive .. | .tell _ => true

theorem Call.isAside_of_isOutward {call : Call} (h : call.isOutward = true) : call.isAside = true := by
  cases call <;> first | rfl | cases h

theorem Call.isAside_of_isInward {call : Call} (h : call.isInward = true) : call.isAside = true := by
  cases call <;> first | rfl | cases h

namespace Device

variable {C F ε : Type} {K : Call → Prop} {d m m' : Device C F}

theorem calls_of_journal {call : Call} (h : m'.journal = call :: m.journal) : m'.calls = m.calls ++ [call] := by
  simp [Device.calls, h]

/-- Between `d` and `m` calls were made, and only calls in `K`. -/
def MadeOnly (K : Call → Prop) (d m : Device C F) : Prop :=
  ∃ calls, m.calls = d.calls ++ calls ∧ ∀ call ∈ calls, K call

theorem madeOnly_refl (K : Call → Prop) (d : Device C F) : MadeOnly K d d := ⟨[], by simp⟩

theorem MadeOnly.snoc {call : Call} (h : MadeOnly K d m) (hj : m'.journal = call :: m.journal) (hcall : K call) :
    MadeOnly K d m' := by
  obtain ⟨calls, hm, hall⟩ := h
  refine ⟨calls ++ [call], ?_, ?_⟩
  · rw [calls_of_journal hj, hm, List.append_assoc]
  · intro c hc
    rcases List.mem_append.1 hc with hc | hc
    · exact hall c hc
    · rw [List.mem_singleton.1 hc]
      exact hcall

theorem keptOutward_madeOnly (hK : ∀ call, call.isOutward = true → K call) : KeptOutward (MadeOnly K d) :=
  fun _ _ _ hcall hm => hm.snoc rfl (hK _ hcall)

/-- A property outlasts the operations of a transfer if it outlasts its bookkeeping and, whatever becomes of the flash
device, every entry that they make in the journal. -/
theorem KeptInward.of_note [FlashDevice F] {P : Device C F → Prop}
    (htransfer : ∀ d transfer, P d → P { d with transfer })
    (hnote : ∀ d flash call, Call.isInward call = true → P d → P ({ d with flash }.note call)) : KeptInward P where
  transfer := htransfer
  create _ := fun _ hd => keeps_conclude _ _ (hnote _ _ _ rfl hd)
  write _ _ := fun _ hd => keeps_conclude _ _ (hnote _ _ _ rfl hd)
  close _ := fun _ hd => keeps_conclude _ _ (hnote _ _ _ rfl hd)
  abort := fun _ hd => keeps_conclude _ _ (hnote _ _ _ rfl hd)
  setState _ := fun _ hd => keeps_conclude _ _ (hnote _ _ _ rfl hd)

theorem keptInward_madeOnly [FlashDevice F] (hK : ∀ call, call.isInward = true → K call) :
    KeptInward (MadeOnly K d) :=
  .of_note (fun _ _ hm => hm) fun _ _ _ hcall hm => hm.snoc rfl (hK _ hcall)

end Device

open Device

/-- **The calls of a run stand at the end of the journal**, and they are of the kinds that its steps make. -/
theorem Task.calls_after {C F ε α : Type} {K : Call → Prop} {task : Task C F ε α} {d : Device C F}
    (h : Keeps (MadeOnly K d) task) :
    (task.after d).calls = d.calls ++ task.made d ∧ ∀ call ∈ task.made d, K call := by
  obtain ⟨calls, hcalls, hall⟩ := h d (madeOnly_refl K d)
  rw [made_of_calls hcalls]
  exact ⟨hcalls, hall⟩

section Runs

variable {C F ε : Type} [FlashDevice F]

/-- **Discarding a transfer calls the flash device alone.** -/
theorem Transfer.calls_abandon (d : Device C F) :
    ((abandon : Task C F ε Unit).after d).calls = d.calls ++ (abandon : Task C F ε Unit).made d ∧
      ∀ call ∈ (abandon : Task C F ε Unit).made d, call.isInward = true :=
  Task.calls_after (keeps_abandon (keptInward_madeOnly fun _ h => h))

theorem Update.keeping_aside (d : Device C F) : Keeping (MadeOnly (fun call => call.isAside = true) d) :=
  .of_inward (keptOutward_madeOnly fun _ => Call.isAside_of_isOutward)
    (keptInward_madeOnly fun _ => Call.isAside_of_isInward)

variable [RangeSource C]

/-- **A download neither acknowledges nor activates.** -/
theorem Update.calls_download (u : UpdateSettings) (offer : Offer) (d : Device C F) :
    ((download u offer).after d).calls = d.calls ++ (download u offer).made d ∧
      ∀ call ∈ (download u offer).made d, call.isAside = true :=
  Task.calls_after (keeps_download (keeping_aside d) u offer)

end Runs
end Firmware
