import Firmware.Proofs.Conduct
import Firmware.Source.Rehearsed
/-!
# Integrity — what an activated image is

An image is activated only as the last step of handling the offer that it was downloaded for.  Whatever the device has
been through, the octets in the slot are then those that the server sent for this very offer, in number and in order,
and they have the digest that it names.
-/
namespace Firmware

deriving instance DecidableEq for Call

namespace Service

variable {C : Type} [RangeSource C]

/-- `offer` is what the payload says; its image of `total` octets came by the calls `receiving` and is activated at
`moment`, and the handling ends right after it. -/
structure Activated (s : Service) (payload : Bytes) (d : Device C FaultyPartition) (offer : Offer) (total : UInt32)
    (receiving : List Call) (moment : Device C FaultyPartition) : Prop where
  decoded : Inbound.parse payload = .ok (.offer offer)
  other : offer.version.text ≠ s.running
  above : s.settings.allowDowngrade = false → s.running < offer.version.text
  aside : ∀ call ∈ receiving, call.isAside = true
  calls : ∃ outcome, moment.calls = d.calls ++ (receiving ++
    answers (offer.ackId.map (·, .update)) true "OK" outcome ++ [.wait s.settings.ackSettleMs])
  ends : ∃ m', Device.activate moment = .ok () m' ∧
    s.handle payload d = .ok () (m'.note (.tell (.failed .activationReturned)))
  closed : moment.flash.partition.isClosed = true
  provenance : Update.Provenance s.settings offer total receiving moment.flash.partition.image

/-- **An image that is activated is the offered one, as the server sent it for this offer**, whatever the device was
before. -/
theorem activated_image_is_offered {s : Service} {payload : Bytes} {d : Device C FaultyPartition}
    (h : Call.activate (.ok ()) ∈ (s.handle payload).made d) :
    ∃ offer total receiving moment, Activated s payload d offer total receiving moment := by
  cases course_of_handle s payload d with
  | undecodable e decoded ends =>
    rw [made_of_undecodable ends] at h
    cases h
  | answered message decoded answer =>
    obtain ⟨asides, success, text, outcome, hcalls, haside, -⟩ := answer.calls
    rw [Task.made_of_calls hcalls] at h
    rcases List.mem_append.1 h with h | h
    · exact absurd h (activate_notMem_of_aside haside _)
    · exact absurd h (activate_notMem_answers _ _ _ _ _)
  | performed offer decoded total m moment e m' performance =>
    obtain ⟨downloading, outcome, rest, hm, haside, hmoment, hmade, hrest⟩ := performance.calls
    have hanswer : Device.activate.result moment = .ok () := by
      rw [hmade] at h
      have hsame : Call.activate (.ok ()) = .activate (Device.activate.result moment) := by
        simpa [activate_notMem_of_aside haside, activate_notMem_answers, activate_notMem_of_aside hrest] using h
      exact (Call.activate.inj hsame).symm
    rcases hactivate : Device.activate moment with ⟨_, m₁⟩ | ⟨fault, m₁⟩
    · obtain ⟨rfl, rfl⟩ := performance.activation.selected m₁ hactivate
      obtain ⟨hverified, calls, hcalls, hprovenance⟩ := Update.provenance_of_download performance.downloaded
      obtain rfl : downloading = calls := List.append_cancel_left (hm.symm.trans hcalls)
      rw [← performance.activation.flash] at hprovenance
      refine ⟨offer, total, downloading, moment, decoded, performance.admitted.other, performance.admitted.above,
        haside, ⟨outcome, hmoment⟩, ⟨m', hactivate, performance.ends⟩, ?_, hprovenance⟩
      rw [performance.activation.flash]
      exact hverified.closed
    · rw [Task.result_of_error hactivate] at hanswer
      cases hanswer

def offerPayload : Bytes :=
  Bytes.ofText "\x7b\"ct\":1,\"ack\":\"a1\",\"sw\":\"01.00.07\",\"urls\":[\x7b\"url\":\"https://host/image\"\x7d]\x7d"

/-- A device whose last transfer failed, before a server that breaks one connection and then serves three octets. -/
def served : Device RehearsedSource FaultyPartition where
  source := { image := ⟨#[7, 8, 9]⟩, fetches := [.serve, .fail .network] }
  flash := .sound { file := some { size := 5, written := 2 } }
  transfer := { phase := .failed }
  uplink := { topic := .empty }

theorem served_image_is_activated :
    ∃ offer total receiving moment, Activated {} offerPayload served offer total receiving moment :=
  activated_image_is_offered (by decide +kernel)

end Service
end Firmware
