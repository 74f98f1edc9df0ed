import Firmware.Proofs.Course
/-!
# Download — what a download has written when it ends well

Of all the responses to the requests for a range, one is accepted: it is no failure and has as many octets as were
asked for.  Its body is what the chunk holds, and what is written to the receive file.  So an image that was fetched to
its end is made of the accepted bodies, one for each range of the plan (`accepted_runPlan`).
-/
namespace Firmware

/-- The range and the body of a response that a download accepts. -/
def Call.accepted? (resource : String) : Call → Option (ByteRange × Bytes)
  | .fetch asked range (.ok answer) buffer =>
    if asked = resource ∧ answer.isFailure = false ∧ answer.bodySize.toNat = range.size.toNat then
      some (range, buffer.take answer.bodySize.toNat)
    else none
  | _ => none

/-- The call is the answer to a probe for the size of a resource, and it declares `total` octets. -/
def Call.Declares (resource : String) (total : UInt32) : Call → Prop
  | .fetch asked range (.ok answer) _ =>
    asked = resource ∧ range = .firstOctet ∧ answer.isFailure = false ∧
      ∃ header, answer.contentRange = some header ∧ ImageSize.ofContentRange header.text = .ok total
  | _ => False

namespace Download

variable {C : Type} [RangeSource C]

section Source

variable {F ε : Type}

/-- **A probe that ends well made one request, and its answer declares the size.** -/
theorem probe_eq_ok {resource : String} {maxSize total : UInt32} {d d' : Device C F}
    (h : probe resource maxSize d = .ok total d') :
    (∃ call, d'.calls = d.calls ++ [call] ∧ call.Declares resource total) ∧ 0 < total.toNat ∧ total ≤ maxSize := by
  unfold probe at h
  rw [Device.bind_fetch] at h
  generalize RangeSource.fetch d.source resource .firstOctet [0] = fetched at h
  obtain ⟨⟨answer, buffer⟩, source⟩ := fetched
  simp only [Task.throw_bind] at h
  cases answer with
  | error e => cases h
  | ok answer =>
    simp only at h
    split at h
    · cases h
    rename_i hfailure
    rcases hheader : answer.contentRange with _ | header
    · simp only [hheader] at h
      cases h
    simp only [hheader] at h
    split at h
    · cases h
    obtain ⟨total', m, hconclude, h⟩ := Task.bind_eq_ok.1 h
    obtain ⟨htotal, rfl⟩ := Task.conclude_eq_ok.1 hconclude
    split at h
    · cases h
    rename_i hpos
    split at h
    · cases h
    rename_i hmax
    cases h
    refine ⟨⟨_, Device.calls_note _ _, rfl, rfl, by simpa using hfailure, header, hheader, htotal⟩, ?_, ?_⟩
    · exact Nat.pos_of_ne_zero fun h0 => hpos (UInt32.toNat_inj.1 h0)
    · rw [UInt32.le_iff_toNat_le]
      rw [UInt32.lt_iff_toNat_lt] at hmax
      omega

/-- **A chunk is the body of the one response that was accepted for its range**, however often the network failed
before. -/
theorem Fetching.accepted {u : UpdateSettings} {url : ImageUrl} {range : ByteRange} {retries : Nat} {attempts : UInt32}
    {calls : List Call} {chunk : Bytes} (h : Fetching u url range retries attempts calls (.ok chunk)) :
    calls.filterMap (Call.accepted? url.resource.text) = [(range, chunk)] := by
  generalize houtcome : Except.ok chunk = outcome at h
  induction h with
  | received accepted size =>
    cases houtcome
    obtain ⟨hfailure, hsize⟩ := ByteRange.refusal?_ok_eq_none.1 accepted
    have hwhole : chunk.take range.size.toNat = chunk := List.take_of_length_le (by omega)
    simp [Call.accepted?, hfailure, hsize, hwhole]
  | refused refusal => cases houtcome
  | exhausted interrupted => cases houtcome
  | again interrupted rest ih => exact ih houtcome

end Source

variable {file : ReceiveFile} {u : UpdateSettings} {url : ImageUrl}

/-- **A chunk that was fetched and written continues the image** by the accepted body. -/
theorem accepted_fetchAndWrite {total index : UInt32} {range : ByteRange} {image buffer buffer' : Bytes}
    {d d' : Device C FaultyPartition} (hin : Transfer.InStep file image d)
    (h : fetchAndWrite u url total index range buffer d = .ok buffer' d') :
    ∃ chunk calls, d'.calls = d.calls ++ calls ∧
      calls.filterMap (Call.accepted? url.resource.text) = [(range, chunk)] ∧
      Transfer.InStep file (image ++ chunk) d' := by
  by_cases hroom : range.size.toNat ≤ buffer.length
  · rw [fetchAndWrite_of_room hroom] at h
    obtain ⟨chunk, m, hfetch, h⟩ := Task.bind_eq_ok.1 h
    obtain ⟨m₁, hreport, -, htold⟩ := report_eq_ok u total index range m
    rw [Task.bind_of_ok hreport] at h
    obtain ⟨_, m₂, hdiscard, h⟩ := Task.bind_eq_ok.1 h
    cases h
    obtain ⟨n, hwrite⟩ := Task.discard_eq_ok.1 hdiscard
    have hkeep := Transfer.keptOutward_inStep (C := C) file image
    have hm : Transfer.InStep file image m := (keeps_fetchChunk hkeep _ _ _ _ _ _).of_ok hfetch hin
    have hm₁ : Transfer.InStep file image m₁ := (keeps_report hkeep _ _ _ _).of_ok hreport hm
    obtain ⟨hnext, hwritten⟩ := hm₁.write hwrite
    have hbuffer : (buffer.take range.size.toNat).length = range.size.toNat := by
      rw [List.length_take]
      omega
    obtain ⟨calls, hcalls, hfetching⟩ := fetching_of_fetchChunk u url range u.maxRetries.toNat 0 d hbuffer
    rw [Task.after_of_ok hfetch] at hcalls
    rw [Task.result_of_ok hfetch] at hfetching
    rw [htold, hcalls, List.append_assoc, List.append_assoc] at hwritten
    refine ⟨chunk, _, hwritten, ?_, hnext⟩
    rw [List.filterMap_append, hfetching.accepted, List.filterMap_append, filterMap_announced fun _ => rfl]
    rfl
  · rw [fetchAndWrite_of_no_room (Nat.lt_of_not_le hroom)] at h
    cases h

/-- **A plan that was run to its end has an accepted response for each of its ranges**, in order, and their bodies
continue the image. -/
theorem accepted_runPlan (plan : ChunkPlan) :
    ∀ {index : UInt32} {image buffer : Bytes} {d d' : Device C FaultyPartition},
    Transfer.InStep file image d → runPlan u url plan index buffer d = .ok () d' →
    ∃ calls, d'.calls = d.calls ++ calls ∧
      (calls.filterMap (Call.accepted? url.resource.text)).map Prod.fst = plan.ranges ∧
      Transfer.InStep file
        (image ++ ((calls.filterMap (Call.accepted? url.resource.text)).map Prod.snd).flatten) d' := by
  induction plan using ChunkPlan.ranges.induct with
  | case1 plan hstep =>
    intro index image buffer d d' hin h
    rw [runPlan_of_none _ _ hstep] at h
    cases h
    exact ⟨[], by simp, by simp [ChunkPlan.ranges_of_none hstep], by simpa using hin⟩
  | case2 plan range rest hstep ih =>
    intro index image buffer d d' hin h
    rw [runPlan_of_some _ _ hstep] at h
    obtain ⟨buffer', m, hchunk, h⟩ := Task.bind_eq_ok.1 h
    obtain ⟨chunk, calls, hcalls, haccepted, hm⟩ := accepted_fetchAndWrite hin hchunk
    obtain ⟨calls', hcalls', hranges, hd'⟩ := ih hm h
    refine ⟨calls ++ calls', by rw [hcalls', hcalls, List.append_assoc], ?_, ?_⟩
    · rw [List.filterMap_append, haccepted, List.map_append, hranges, ChunkPlan.ranges_of_some hstep]
      rfl
    · rw [List.filterMap_append, haccepted, List.map_append, List.flatten_append]
      simpa only [List.map_cons, List.map_nil, List.flatten_cons, List.flatten_nil, List.append_nil,
        List.append_assoc] using hd'

end Download
end Firmware
