import Firmware.Proofs.Order
/-!
# Progress — what a run tells of itself

Of so many chunks, progress is told with the last: once, when the chunk was fetched and before it is written, however
often it was asked for.  `Course.counts` says how often progress is told by then, `Course.placed` where, and with them
`run_tells_progress` that the numbers told are right.
-/
namespace Firmware

def Call.told? : Call → Option Event
  | .tell event => some event
  | _ => none

namespace Download

variable {u : UpdateSettings} {url : ImageUrl} {range : ByteRange} {calls before after : List Call} {event : Event}

/-! ## How often -/

/-- Of how many chunks one is told; of no chunks counts as of one. -/
def cadence (u : UpdateSettings) : Nat := max 1 u.progressEveryChunks.toNat

theorem tellsProgress_iff {index : UInt32} : tellsProgress u index = true ↔ cadence u ∣ index.toNat + 1 := by
  obtain ⟨every, hevery, hcadence⟩ : ∃ every : UInt32,
      (if u.progressEveryChunks = 0 then 1 else u.progressEveryChunks) = every ∧ every.toNat = cadence u := by
    refine ⟨_, rfl, ?_⟩
    unfold cadence
    split
    · rename_i hzero
      rw [hzero]
      rfl
    · rename_i hne
      have hpos : 0 < u.progressEveryChunks.toNat := Nat.pos_of_ne_zero fun h => hne (UInt32.toNat_inj.1 h)
      omega
  have hpos : 1 ≤ cadence u := Nat.le_max_left _ _
  have hlast : (every - 1).toNat = cadence u - 1 := by
    rw [UInt32.toNat_sub_of_le _ _ (UInt32.le_iff_toNat_le.2 (by rw [UInt32.toNat_one]; omega)), UInt32.toNat_one,
      hcadence]
  obtain ⟨c, hc⟩ : ∃ c, cadence u = c + 1 := ⟨cadence u - 1, by omega⟩
  unfold tellsProgress
  dsimp only
  rw [hevery, beq_iff_eq, ← UInt32.toNat_inj, UInt32.toNat_mod, hlast, hcadence, hc, Nat.dvd_iff_mod_eq_zero,
    Nat.succ_mod_succ_eq_zero_iff, Nat.add_sub_cancel]

theorem told_announced (u : UpdateSettings) (total index : UInt32) (range : ByteRange) :
    ((announced u total index range).filterMap Call.told?).length + index.toNat / cadence u =
      (index.toNat + 1) / cadence u := by
  rw [Nat.succ_div, Nat.add_comm]
  unfold announced
  by_cases htells : tellsProgress u index = true
  · rw [if_pos htells, if_pos (tellsProgress_iff.1 htells)]
    rfl
  · rw [if_neg htells, if_neg (mt tellsProgress_iff.2 htells)]
    rfl

theorem Fetching.untold {retries : Nat} {attempts : UInt32} {outcome : Except UpdateError Bytes}
    (h : Fetching u url range retries attempts calls outcome) : calls.filterMap Call.told? = [] := by
  induction h with
  | received _ _ => rfl
  | refused _ => rfl
  | exhausted _ => rfl
  | again _ _ ih => exact ih

theorem Moving.told {total index : UInt32} {phase phase' : Phase}
    (h : Moving u url total index range phase calls (.ok ()) phase') :
    (calls.filterMap Call.told?).length + index.toNat / cadence u = (index.toNat + 1) / cadence u := by
  cases h with
  | moved fetching fits =>
    rw [List.filterMap_append, List.filterMap_append, fetching.untold, List.nil_append, List.length_append]
    exact told_announced u total index range

theorem toNat_next {index : UInt32} (h : index.toNat + 1 < UInt32.size) : (index + 1).toNat = index.toNat + 1 := by
  rw [UInt32.toNat_add, UInt32.toNat_one, Nat.mod_eq_of_lt h]

/-- **So many chunks, so many reports.** -/
theorem Course.counts {plan : ChunkPlan} {index : UInt32} {phase phase' : Phase}
    (h : Course u url plan index phase calls (.ok ()) phase') :
    index.toNat + plan.ranges.length < UInt32.size →
      (calls.filterMap Call.told?).length + index.toNat / cadence u =
        (index.toNat + plan.ranges.length) / cadence u := by
  generalize houtcome : Except.ok () = outcome at h
  induction h with
  | done covered => simp [ChunkPlan.ranges_of_none covered]
  | broken step moving => cases houtcome
  | @next plan rest index range phase calls between calls' outcome phase' step moving course ih =>
    intro hfits
    rw [ChunkPlan.ranges_of_some step, List.length_cons] at hfits ⊢
    have hindex : (index + 1).toNat = index.toNat + 1 := toNat_next (by omega)
    have hrest := ih houtcome (by rw [hindex]; omega)
    have hfirst := moving.told
    rw [hindex, Nat.add_assoc, Nat.add_comm 1] at hrest
    rw [List.filterMap_append, List.length_append]
    omega

/-! ## Where -/

/-- A report of a range stands right between the response with its octets and the write of them. -/
def Reports (url : ImageUrl) (total : UInt32) (range : ByteRange) (before : List Call) (event : Event)
    (after : List Call) : Prop :=
  event = .progress (percent range.first total) range.first total ∧
    ∃ front response chunk rest, before = front ++ [.fetch url.resource.text range (.ok response) chunk] ∧
      range.refusal? (.ok response) = none ∧ after = .write range.first chunk (.ok chunk.length) :: rest

theorem Moving.reports {total index : UInt32} {phase phase' : Phase}
    (h : Moving u url total index range phase calls (.ok ()) phase') (hsplit : calls = before ++ .tell event :: after) :
    cadence u ∣ index.toNat + 1 ∧ Reports url total range before event after ∧
      (∀ call ∈ before, call.isOutward = true) ∧ before.filterMap Call.told? = [] := by
  cases h with
  | @moved expected fetched chunk fetching fits =>
    rw [List.append_assoc] at hsplit
    rcases split_append hsplit with ⟨tail, rfl, -⟩ | ⟨head, rfl, hrest⟩
    · have huntold := fetching.untold
      rw [List.filterMap_append, List.append_eq_nil_iff] at huntold
      cases huntold.2
    unfold announced at hrest
    by_cases htells : tellsProgress u index = true
    · rw [if_pos htells] at hrest
      cases head with
      | nil =>
        obtain ⟨htell, rfl⟩ := List.cons.inj hrest
        obtain ⟨front, response, hfetched, haccepted⟩ := fetching.response
        refine ⟨tellsProgress_iff.1 htells,
          ⟨(Call.tell.inj htell).symm, front, response, chunk, [], ?_, haccepted, rfl⟩, ?_, ?_⟩
        · rw [List.append_nil, hfetched]
        · rw [List.append_nil]
          exact fetching.outward
        · rw [List.append_nil, fetching.untold]
      | cons _ head =>
        obtain ⟨-, hwrite⟩ := List.cons.inj hrest
        cases head with
        | nil => cases (List.cons.inj hwrite).1
        | cons _ _ => simp at hwrite
    · rw [if_neg htells, List.nil_append] at hrest
      cases head with
      | nil => cases (List.cons.inj hrest).1
      | cons _ _ => simp at hrest

/-- **A report stands with its chunk**, behind the reports and the writes of the chunks before. -/
theorem Course.placed {plan : ChunkPlan} {index : UInt32} {phase phase' : Phase}
    (h : Course u url plan index phase calls (.ok ()) phase') :
    ∀ {before : List Call}, index.toNat + plan.ranges.length < UInt32.size → calls = before ++ .tell event :: after →
      ∃ i range, plan.ranges[i]? = some range ∧ cadence u ∣ index.toNat + i + 1 ∧
        Reports url plan.total range before event after ∧
        (before.filterMap Call.told?).length + index.toNat / cadence u = (index.toNat + i) / cadence u ∧
        before.filterMap Call.written? = (plan.ranges.take i).map ByteRange.extent ∧
        before.filterMap Call.stored? = (plan.ranges.take i).map ByteRange.extent := by
  generalize houtcome : Except.ok () = outcome at h
  induction h with
  | done covered =>
    intro before _ hsplit
    simp at hsplit
  | broken step moving => cases houtcome
  | @next plan rest index range phase calls between calls' outcome phase' step moving course ih =>
    intro before hfits hsplit
    rw [ChunkPlan.ranges_of_some step, List.length_cons] at hfits
    rw [ChunkPlan.ranges_of_some step]
    have hindex : (index + 1).toNat = index.toNat + 1 := toNat_next (by omega)
    rcases split_append hsplit with ⟨tail, hcalls, rfl⟩ | ⟨head, rfl, hcalls'⟩
    · obtain ⟨hdue, ⟨hevent, front, response, chunk, more, hbefore, haccepted, rfl⟩, houtward, huntold⟩ :=
        moving.reports hcalls
      refine ⟨0, range, rfl, hdue, ⟨hevent, front, response, chunk, more ++ calls', hbefore, haccepted, rfl⟩,
        ?_, ?_, ?_⟩
      · rw [huntold]
        exact Nat.zero_add _
      · exact filterMap_of_outward Call.written?_of_isOutward houtward
      · exact filterMap_of_outward Call.stored?_of_isOutward houtward
    · have htotal := (ChunkPlan.step_of_step? step).total
      obtain ⟨i, later, hlater, hdue, ⟨hevent, front, response, chunk, more, rfl, hrest⟩, hcount, hwritten, hstored⟩ :=
        ih houtcome (by rw [hindex]; omega) hcalls'
      rw [htotal] at hevent
      have hplace : index.toNat + 1 + i = index.toNat + (i + 1) := by omega
      rw [hindex, hplace] at hdue hcount
      refine ⟨i + 1, later, hlater, hdue,
        ⟨hevent, calls ++ front, response, chunk, more, (List.append_assoc _ _ _).symm, hrest⟩, ?_, ?_, ?_⟩
      · have hfirst := moving.told
        rw [List.filterMap_append, List.length_append]
        omega
      · rw [List.filterMap_append, moving.stored.1, hwritten]
        rfl
      · rw [List.filterMap_append, moving.stored.2, hstored]
        rfl

/-! ## What is told -/

/-- **The share of an image is computed without loss**: 64 bits have room for the product, and 8 bits for the share. -/
theorem percent_exact {offset total : UInt32} (h : offset < total) :
    (offset.toUInt64 * 100).toNat = offset.toNat * 100 ∧
      (percent offset total).toNat = offset.toNat * 100 / total.toNat ∧ (percent offset total).toNat ≤ 99 := by
  have hlt : offset.toNat < total.toNat := UInt32.lt_iff_toNat_lt.1 h
  have hoffset := offset.toNat_lt
  have hhundred : (100 : UInt64).toNat = 100 := rfl
  have hproduct : (offset.toUInt64 * 100).toNat = offset.toNat * 100 := by
    rw [UInt64.toNat_mul, UInt32.toNat_toUInt64, hhundred, Nat.mod_eq_of_lt (by omega)]
  have hshare : offset.toNat * 100 / total.toNat < 100 :=
    Nat.div_lt_of_lt_mul (Nat.mul_lt_mul_of_pos_right hlt (by decide))
  have hpercent : (percent offset total).toNat = offset.toNat * 100 / total.toNat := by
    rw [percent, UInt64.toNat_toUInt8, UInt64.toNat_div, hproduct, UInt32.toNat_toUInt64, Nat.mod_eq_of_lt (by omega)]
  exact ⟨hproduct, hpercent, by omega⟩

/-- What a run through `ranges` that ends well tells of itself. -/
structure TellsProgress (u : UpdateSettings) (url : ImageUrl) (total : UInt32) (ranges : List ByteRange)
    (calls : List Call) : Prop where
  number : (calls.filterMap Call.told?).length = ranges.length / cadence u
  /-- The report that so many others stand before stands with the last of its chunks. -/
  placed : ∀ before event after k, calls = before ++ .tell event :: after → (before.filterMap Call.told?).length = k →
    ∃ range, ranges[(k + 1) * cadence u - 1]? = some range ∧ Reports url total range before event after ∧
      range.first.toNat = ((k + 1) * cadence u - 1) * u.chunkSize.toNat ∧
      before.filterMap Call.written? = before.filterMap Call.stored? ∧
      ((before.filterMap Call.stored?).map Prod.snd).sum = range.first.toNat
  rising : ∀ before percent offset total between percent' offset' total' after,
    calls = before ++ .tell (.progress percent offset total) ::
      (between ++ .tell (.progress percent' offset' total') :: after) → offset < offset' ∧ percent ≤ percent'
  /-- Neither the number of a chunk nor the share before it is cut off. -/
  lossless : ranges.length < UInt32.size ∧ ∀ range ∈ ranges, range.first < total ∧
    (range.first.toUInt64 * 100).toNat = range.first.toNat * 100 ∧
    (percent range.first total).toNat = range.first.toNat * 100 / total.toNat ∧ (percent range.first total).toNat ≤ 99

theorem index_of_count {i k c : Nat} (hdue : c ∣ i + 1) (hcount : k = i / c) : i = (k + 1) * c - 1 := by
  have hnext : (i + 1) / c = k + 1 := by rw [Nat.succ_div_of_dvd hdue, hcount]
  have hmul := Nat.div_mul_cancel hdue
  rw [hnext] at hmul
  omega

theorem sum_extents (ranges : List ByteRange) :
    ((ranges.map ByteRange.extent).map Prod.snd).sum = (ranges.map fun range => range.size.toNat).sum := by
  rw [List.map_map]
  rfl

section Whole

variable {total : UInt32} {phase phase' : Phase}

theorem Course.placed_whole (h : Course u url (.ofSize total u.chunkSize) 0 phase calls (.ok ()) phase')
    (hchunk : u.chunkSize ≠ 0) {k : Nat} (hsplit : calls = before ++ .tell event :: after)
    (hcount : (before.filterMap Call.told?).length = k) :
    ∃ range, (ChunkPlan.ofSize total u.chunkSize).ranges[(k + 1) * cadence u - 1]? = some range ∧
      Reports url total range before event after ∧
      range.first.toNat = ((k + 1) * cadence u - 1) * u.chunkSize.toNat ∧
      before.filterMap Call.written? = before.filterMap Call.stored? ∧
      ((before.filterMap Call.stored?).map Prod.snd).sum = range.first.toNat := by
  have hfits : (0 : UInt32).toNat + (ChunkPlan.ofSize total u.chunkSize).ranges.length < UInt32.size := by
    rw [UInt32.toNat_zero, Nat.zero_add]
    exact ChunkPlan.length_ranges_lt _ _
  obtain ⟨i, range, hrange, hdue, hreports, hplace, hwritten, hstored⟩ := h.placed hfits hsplit
  rw [UInt32.toNat_zero, Nat.zero_add] at hdue
  rw [UInt32.toNat_zero, Nat.zero_div, Nat.add_zero, Nat.zero_add, hcount] at hplace
  have hfirst := ChunkPlan.first_of_getElem? _ hrange
  have hsum := ChunkPlan.sum_take_of_getElem? _ hrange
  have hnext : (ChunkPlan.ofSize total u.chunkSize).next.toNat = 0 := rfl
  have hsize : (ChunkPlan.ofSize total u.chunkSize).chunk = u.chunkSize := if_neg hchunk
  rw [hnext, Nat.zero_add] at hsum hfirst
  rw [hsize] at hfirst
  rw [← index_of_count hdue hplace]
  exact ⟨range, hrange, hreports, hfirst, hwritten.trans hstored.symm, by rw [hstored, sum_extents, hsum]⟩

theorem Course.rising (h : Course u url (.ofSize total u.chunkSize) 0 phase calls (.ok ()) phase')
    (hchunk : u.chunkSize ≠ 0) {between : List Call} {share share' : UInt8} {offset size offset' size' : UInt32}
    (hsplit : calls = before ++ .tell (.progress share offset size) ::
      (between ++ .tell (.progress share' offset' size') :: after)) : offset < offset' ∧ share ≤ share' := by
  obtain ⟨earlier, hearlier⟩ : ∃ earlier, before ++ .tell (.progress share offset size) :: between = earlier := ⟨_, rfl⟩
  have hlater : calls = earlier ++ .tell (.progress share' offset' size') :: after := by
    rw [hsplit, ← hearlier, List.append_assoc, List.cons_append]
  have hmore : (before.filterMap Call.told?).length + 1 ≤ (earlier.filterMap Call.told?).length := by
    rw [← hearlier, List.filterMap_append, List.length_append, List.filterMap_cons]
    simp only [Call.told?, List.length_cons]
    omega
  obtain ⟨range, hrange, ⟨hevent, -⟩, hfirst, -⟩ := h.placed_whole hchunk hsplit rfl
  obtain ⟨range', hrange', ⟨hevent', -⟩, hfirst', -⟩ := h.placed_whole hchunk hlater rfl
  obtain ⟨rfl, rfl, -⟩ := Event.progress.inj hevent
  obtain ⟨rfl, rfl, -⟩ := Event.progress.inj hevent'
  generalize (before.filterMap Call.told?).length = k at hmore hfirst
  generalize (earlier.filterMap Call.told?).length = k' at hmore hfirst'
  have hcadence : 1 ≤ cadence u := Nat.le_max_left _ _
  have hchunkPos : 0 < u.chunkSize.toNat := Nat.pos_of_ne_zero fun h => hchunk (UInt32.toNat_inj.1 h)
  have hindex : (k + 1) * cadence u - 1 < (k' + 1) * cadence u - 1 :=
    Nat.sub_lt_sub_right (Nat.mul_pos (Nat.succ_pos k) hcadence)
      (Nat.mul_lt_mul_of_pos_right (Nat.lt_succ_of_le hmore) hcadence)
  have hlt : range.first.toNat < range'.first.toNat := by
    rw [hfirst, hfirst']
    exact Nat.mul_lt_mul_of_pos_right hindex hchunkPos
  refine ⟨UInt32.lt_iff_toNat_lt.2 hlt, UInt8.le_iff_toNat_le.2 ?_⟩
  have hinside : range.first < total := ChunkPlan.first_lt_of_mem _ range (List.mem_of_getElem? hrange)
  have hinside' : range'.first < total := ChunkPlan.first_lt_of_mem _ range' (List.mem_of_getElem? hrange')
  rw [(percent_exact hinside).2.1, (percent_exact hinside').2.1]
  exact Nat.div_le_div_right (Nat.mul_le_mul_right 100 (Nat.le_of_lt hlt))

theorem Course.tellsProgress (h : Course u url (.ofSize total u.chunkSize) 0 phase calls (.ok ()) phase')
    (hchunk : u.chunkSize ≠ 0) : TellsProgress u url total (ChunkPlan.ofSize total u.chunkSize).ranges calls where
  number := by
    have hcounts := h.counts (by rw [UInt32.toNat_zero, Nat.zero_add]; exact ChunkPlan.length_ranges_lt _ _)
    rwa [UInt32.toNat_zero, Nat.zero_div, Nat.add_zero, Nat.zero_add] at hcounts
  placed _ _ _ _ hsplit hcount := h.placed_whole hchunk hsplit hcount
  rising _ _ _ _ _ _ _ _ _ hsplit := h.rising hchunk hsplit
  lossless := ⟨ChunkPlan.length_ranges_lt _ _, fun range hrange =>
    have hlt := ChunkPlan.first_lt_of_mem _ range hrange
    ⟨hlt, percent_exact hlt⟩⟩

end Whole

variable {C F : Type} [RangeSource C] [FlashDevice F]

/-- **What a run that ends well tells of itself is right.**  Progress is told once for every so many chunks, after the
last of them was fetched and before it is written, with the octets written so far and their share of the image. -/
theorem run_tells_progress {total : UInt32} {d : Device C F} (url : ImageUrl) (hchunk : u.chunkSize ≠ 0)
    (hok : (run u url total).result d = .ok ()) :
    ((run u url total).after d).calls = d.calls ++ (run u url total).made d ∧
      (ChunkPlan.ofSize total u.chunkSize).ranges.length = (ChunkPlan.ofSize total u.chunkSize).count.toNat ∧
      TellsProgress u url total (ChunkPlan.ofSize total u.chunkSize).ranges ((run u url total).made d) := by
  obtain ⟨hcalls, hcourse⟩ := course_of_run hchunk url total d
  rw [hok] at hcourse
  exact ⟨hcalls, ChunkPlan.length_ranges_ofSize _ _, hcourse.tellsProgress hchunk⟩

def dripping : RehearsedSource :=
  { connected := true
    fetches := [.answer 206 none [7] 1, .fail .network, .answer 206 none [8] 1, .answer 206 none [9] 1] }

def everySecond : UpdateSettings := { chunkSize := 1, progressEveryChunks := 2 }

def drippingRun : Task RehearsedSource FaultyPartition UpdateError Unit :=
  run everySecond ⟨⟨"host", host_fits⟩, ⟨"/image", resource_fits⟩⟩ 3

def drippingPlan (next : UInt32) : ChunkPlan := { total := 3, chunk := 1, next, chunk_pos := by decide }

theorem drippingRun_ends :
    (drippingRun.result (awaiting dripping)).toOption = some () ∧
      (drippingRun.made (awaiting dripping)).filterMap Call.told? = [.progress 33 1 3] := by
  have hwhole : ChunkPlan.ofSize 3 everySecond.chunkSize = drippingPlan 0 := rfl
  have hfirst : (drippingPlan 0).step? = some (⟨0, 0⟩, drippingPlan 1) := rfl
  have hsecond : (drippingPlan 1).step? = some (⟨1, 1⟩, drippingPlan 2) := rfl
  have hthird : (drippingPlan 2).step? = some (⟨2, 2⟩, drippingPlan 3) := rfl
  have hend : (drippingPlan 3).step? = none := rfl
  simp only [drippingRun, run, hwhole, runPlan_of_some _ _ hfirst, runPlan_of_some _ _ hsecond,
    runPlan_of_some _ _ hthird, runPlan_of_none _ _ hend]
  decide +kernel

theorem drippingRun_tells_progress :
    everySecond.chunkSize ≠ 0 ∧ (awaiting dripping).transfer.phase = .receiving 3 0 ∧
      drippingRun.result (awaiting dripping) = .ok () ∧
      TellsProgress everySecond ⟨⟨"host", host_fits⟩, ⟨"/image", resource_fits⟩⟩ 3 [⟨0, 0⟩, ⟨1, 1⟩, ⟨2, 2⟩]
        (drippingRun.made (awaiting dripping)) ∧
      (drippingRun.made (awaiting dripping)).filterMap Call.told? = [.progress 33 1 3] := by
  have hchunk : everySecond.chunkSize ≠ 0 := by decide
  obtain ⟨hran, htold⟩ := drippingRun_ends
  have hok : drippingRun.result (awaiting dripping) = .ok () := by
    cases hresult : drippingRun.result (awaiting dripping) with
    | ok => rfl
    | error e =>
      rw [hresult] at hran
      cases hran
  have hranges : (ChunkPlan.ofSize 3 everySecond.chunkSize).ranges = [⟨0, 0⟩, ⟨1, 1⟩, ⟨2, 2⟩] := by
    rw [ChunkPlan.ranges_ofSize]
    decide
  obtain ⟨-, -, htells⟩ := run_tells_progress ⟨⟨"host", host_fits⟩, ⟨"/image", resource_fits⟩⟩ hchunk hok
  rw [hranges] at htells
  exact ⟨hchunk, rfl, hok, htells, htold⟩

end Download
end Firmware
