import Firmware.Proofs.Download
/-!
# Update — where a verified image comes from, and how it is activated

A download that ends well has asked for the size once, opened the file for that size, fetched and written every range
of the plan, and closed the file with the offered digest.  `Provenance` says all of this about the calls that were made
and the image that is in the slot; it does not matter in which state the device was before.  `Activation` is about what
comes next: an acknowledgement if one is asked for, a pause, and the activation.
-/
namespace Firmware

namespace Task

variable {C F ε ε' α : Type}

theorem raising_eq_ok {wrap : ε → ε'} {task : Task C F ε α} {d d' : Device C F} {a : α} :
    raising wrap task d = .ok a d' ↔ task d = .ok a d' := by
  unfold raising
  cases task d <;> simp

end Task

namespace Update

variable {C : Type} [RangeSource C]

/-- How an image came about through the calls of a download. -/
structure Provenance (u : UpdateSettings) (offer : Offer) (total : UInt32) (calls : List Call) (image : Bytes) :
    Prop where
  /-- One probe declared the size, the file was opened for it, the ranges of the plan were asked for, and the file was
  closed.  Each range has one accepted response, and the image is made of their bodies. -/
  course : ∃ url probe fetching wasOpen wasOpen',
    ImageUrl.parse offer.url.text = .ok url ∧ probe.Declares url.resource.text total ∧
    calls = [.tell (.updateStarted offer.version.text), .connect url.host.text (.ok ()), probe,
        .create (.ofSettings u total offer.digest) (.ok ())] ++ fetching ++
      [.disconnect wasOpen, .wait u.postDownloadDelayMs, .close (.ofSettings u total offer.digest) (.ok ()),
        .setState .testing (.ok ()), .tell (.downloaded total), .disconnect wasOpen'] ∧
    (fetching.filterMap (Call.accepted? url.resource.text)).map Prod.fst =
      (ChunkPlan.ofSize total u.chunkSize).ranges ∧
    image = ((fetching.filterMap (Call.accepted? url.resource.text)).map Prod.snd).flatten
  ordered : (ChunkPlan.ofSize total u.chunkSize).ranges.Pairwise fun r s => r.last < s.first
  size_pos : 1 ≤ total.toNat
  size_le : total ≤ u.maxImageSize
  length : image.length = total.toNat
  digest : ∀ digest, offer.digest = some digest → Sha256.digest image = digest.octets

structure Verified (d : Device C FaultyPartition) : Prop where
  ready : d.transfer.phase = .ready
  closed : d.flash.partition.isClosed = true

theorem verified_of_receive {u : UpdateSettings} {url : ImageUrl} {digest : Option ImageDigest} {total : UInt32}
    {d m : Device C FaultyPartition} (h : receive u url digest d = .ok total m) :
    Verified m ∧ 1 ≤ total.toNat ∧ total ≤ u.maxImageSize ∧ m.flash.partition.image.length = total.toNat ∧
      (∀ dg, digest = some dg → Sha256.digest m.flash.partition.image = dg.octets) ∧
      ∃ probe fetching wasOpen, probe.Declares url.resource.text total ∧
        m.calls = d.calls ++ (.connect url.host.text (.ok ()) :: probe ::
          .create (.ofSettings u total digest) (.ok ()) :: (fetching ++
          [.disconnect wasOpen, .wait u.postDownloadDelayMs, .close (.ofSettings u total digest) (.ok ()),
            .setState .testing (.ok ()), .tell (.downloaded total)])) ∧
        (fetching.filterMap (Call.accepted? url.resource.text)).map Prod.fst =
          (ChunkPlan.ofSize total u.chunkSize).ranges ∧
        m.flash.partition.image = ((fetching.filterMap (Call.accepted? url.resource.text)).map Prod.snd).flatten := by
  unfold receive at h
  obtain ⟨_, m₁, hconnect, h⟩ := Task.bind_eq_ok.1 h
  have hconnectCalls := Device.calls_of_connect (Task.raising_eq_ok.1 hconnect)
  obtain ⟨total', m₂, hprobe, h⟩ := Task.bind_eq_ok.1 h
  obtain ⟨⟨probe, hprobeCalls, hdeclares⟩, hpos, hmax⟩ := Download.probe_eq_ok hprobe
  obtain ⟨_, m₃, hbegin, h⟩ := Task.bind_eq_ok.1 h
  obtain ⟨hopened, hbeginCalls⟩ := Transfer.inStep_begin hbegin
  obtain ⟨_, m₄, hrun, h⟩ := Task.bind_eq_ok.1 h
  obtain ⟨fetching, hfetching, hranges, hwritten⟩ := Download.accepted_runPlan _ hopened hrun
  rw [List.nil_append] at hwritten
  rw [Device.bind_disconnect, Device.bind_wait] at h
  obtain ⟨_, m₅, hfinish, h⟩ := Task.bind_eq_ok.1 h
  have hkeep := Transfer.keptOutward_inStep (C := C) (.ofSettings u total' digest)
    ((fetching.filterMap (Call.accepted? url.resource.text)).map Prod.snd).flatten
  have hclosing := hkeep m₄ (RangeSource.disconnect m₄.source) (.disconnect (RangeSource.isOpen m₄.source)) rfl hwritten
  have hdone := hkeep.note (.wait u.postDownloadDelayMs) rfl hclosing
  obtain ⟨hready, hclosed, himage, hlength, hsigned, hfinishCalls⟩ := hdone.finish hfinish
  rw [Device.bind_tell] at h
  cases h
  refine ⟨⟨by rw [Device.note, hready], hclosed⟩, hpos, hmax, ?_, ?_, probe, fetching,
    RangeSource.isOpen m₄.source, hdeclares, ?_, hranges, himage⟩
  · rw [← himage] at hlength
    exact hlength
  · rintro dg rfl
    have := hsigned ⟨u.signerCertPath, dg.octets⟩ rfl
    rw [← himage] at this
    exact this
  · have hclosingCalls : m₅.calls = m₄.calls ++
        [.disconnect (RangeSource.isOpen m₄.source), .wait u.postDownloadDelayMs,
        .close (.ofSettings u total digest) (.ok ()), .setState .testing (.ok ())] := by
      rw [hfinishCalls]
      simp [Device.calls, Device.note]
    rw [Device.calls_note, hclosingCalls, hfetching, hbeginCalls, hprobeCalls, hconnectCalls]
    simp only [List.append_assoc, List.cons_append, List.nil_append]

/-- **A download that ends well leaves a verified image of the offer**, whatever it started from. -/
theorem provenance_of_download {u : UpdateSettings} {offer : Offer} {total : UInt32} {d m : Device C FaultyPartition}
    (h : download u offer d = .ok total m) :
    Verified m ∧ ∃ calls, m.calls = d.calls ++ calls ∧
      Provenance u offer total calls m.flash.partition.image := by
  unfold download at h
  rcases hurl : ImageUrl.parse offer.url.text with fault | url
  · simp only [hurl] at h
    cases h
  simp only [hurl] at h
  rw [Device.bind_tell, Task.bind_of_ok (Task.attempt_apply _ _), Device.bind_disconnect] at h
  rcases hreceive : receive u url offer.digest (d.note (.tell (.updateStarted offer.version.text))) with
    ⟨total', m'⟩ | ⟨e, m'⟩
  · rw [Task.result_of_ok hreceive, Task.after_of_ok hreceive] at h
    cases h
    obtain ⟨hverified, hpos, hmax, hlength, hdigest, probe, fetching, wasOpen, hdeclares, hcalls, hranges, himage⟩ :=
      verified_of_receive hreceive
    refine ⟨⟨hverified.ready, hverified.closed⟩, _, ?_,
      ⟨⟨url, probe, fetching, wasOpen, RangeSource.isOpen m'.source, hurl, hdeclares, rfl, hranges, himage⟩,
        ChunkPlan.ranges_pairwise _, hpos, hmax, hlength, hdigest⟩⟩
    have hcalls' : (({ m' with source := RangeSource.disconnect m'.source } : Device C FaultyPartition).note
        (.disconnect (RangeSource.isOpen m'.source))).calls =
          m'.calls ++ [.disconnect (RangeSource.isOpen m'.source)] := Device.calls_note _ _
    rw [hcalls', hcalls, Device.calls_note]
    simp only [List.append_assoc, List.cons_append, List.nil_append]
  · rw [Task.result_of_error hreceive, Task.after_of_error hreceive] at h
    obtain ⟨_, _, _, h⟩ := Task.bind_eq_ok.1 h
    cases h

/-! ## A download that fails -/

/-- **A download fails before it does anything, or by discarding its transfer last of all**, after the session was
ended. -/
theorem download_eq_error {F : Type} [FlashDevice F] {u : UpdateSettings} {offer : Offer} {e : UpdateError}
    {d d' : Device C F} (h : download u offer d = .error e d') :
    ((∃ reason, e = .invalidUrl reason) ∧ d' = d) ∨
      ∃ m, (∃ before wasOpen, m.calls = d.calls ++ (before ++ [.disconnect wasOpen])) ∧
        (∀ P : Device C F → Prop, Keeping P → P d → P m) ∧
        (Transfer.abandon : Task C F UpdateError Unit) m = .ok () d' := by
  unfold download at h
  rcases hurl : ImageUrl.parse offer.url.text with fault | url
  · simp only [hurl] at h
    cases h
    exact .inl ⟨⟨_, rfl⟩, rfl⟩
  right
  simp only [hurl] at h
  rw [Device.bind_tell, Task.bind_of_ok (Task.attempt_apply _ _), Device.bind_disconnect] at h
  have hkeep : ∀ P : Device C F → Prop, Keeping P → P d →
      P ((receive u url offer.digest).after (d.note (.tell (.updateStarted offer.version.text)))) := fun P hP hd =>
    keeps_receive hP u url offer.digest _ (hP.outward.note _ rfl hd)
  rcases hreceive : receive u url offer.digest (d.note (.tell (.updateStarted offer.version.text))) with
    ⟨total, m⟩ | ⟨e', m⟩
  · rw [Task.result_of_ok hreceive, Task.after_of_ok hreceive] at h
    cases h
  rw [Task.after_of_error hreceive] at hkeep
  rw [Task.result_of_error hreceive, Task.after_of_error hreceive] at h
  obtain ⟨before, hbefore, -⟩ := hkeep _ (keeping_aside d) (Device.madeOnly_refl _ d)
  generalize hended : { m with source := RangeSource.disconnect m.source }.note
    (.disconnect (RangeSource.isOpen m.source)) = m₁ at h
  obtain ⟨m₂, habandon⟩ : ∃ m₂, (Transfer.abandon : Task C F UpdateError Unit) m₁ = .ok () m₂ :=
    Transfer.abandon_eq_ok m₁
  simp only [] at h
  rw [Task.bind_of_ok habandon] at h
  cases h
  refine ⟨m₁, ⟨before, RangeSource.isOpen m.source, ?_⟩, fun P hP hd => ?_, habandon⟩
  · rw [← hended, ← List.append_assoc, ← hbefore]
    exact Device.calls_note _ _
  · rw [← hended]
    exact hP.outward m _ _ rfl (hkeep P hP hd)

/-! ## Activation -/

section Activation

variable {C F : Type} [FlashDevice F]

/-- The activation that follows a download is asked for at `moment`, and ends with `e`. -/
structure Activation (u : UpdateSettings) (ack : Option Ack) (m moment : Device C F) (e : UpdateError)
    (m' : Device C F) : Prop where
  flash : moment.flash = m.flash
  acknowledged : ∃ outcome, moment.calls =
    m.calls ++ (ack.map fun ack => Call.acknowledge ack outcome).toList ++ [.wait u.ackSettleMs]
  selected : ∀ m₁, Device.activate moment = .ok () m₁ → e = .activationReturned ∧ m' = m₁
  refused : ∀ fault m₁, Device.activate moment = .error fault m₁ →
    e = .flash fault ∧ m' = (Transfer.abandon : Task C F DeviceError Unit).after m₁

theorem activation_at (u : UpdateSettings) (ack : Option Ack) {m moment : Device C F} (hflash : moment.flash = m.flash)
    (hcalls : ∃ outcome, moment.calls =
      m.calls ++ (ack.map fun ack => Call.acknowledge ack outcome).toList ++ [.wait u.ackSettleMs]) :
    ∃ e m', (do
      match ← Task.attempt Device.activate with
      | .error e =>
        Transfer.abandon
        return .flash e
      | .ok () => return .activationReturned : Task C F DeviceError UpdateError) moment = .ok e m' ∧
      Activation u ack m moment e m' := by
  rw [Task.bind_of_ok (Task.attempt_apply _ _)]
  rcases hactivate : Device.activate moment with ⟨_, m₁⟩ | ⟨fault, m₁⟩
  · rw [Task.result_of_ok hactivate, Task.after_of_ok hactivate]
    refine ⟨_, _, rfl, hflash, hcalls, fun _ h => ?_, fun _ _ h => ?_⟩
    · rw [hactivate] at h
      cases h
      exact ⟨rfl, rfl⟩
    · rw [hactivate] at h
      cases h
  · rw [Task.result_of_error hactivate, Task.after_of_error hactivate]
    obtain ⟨m₂, habandon⟩ : ∃ m₂, (Transfer.abandon : Task C F DeviceError Unit) m₁ = .ok () m₂ :=
      Transfer.abandon_eq_ok m₁
    refine ⟨.flash fault, m₂, ?_, hflash, hcalls, fun _ h => ?_, fun _ _ h => ?_⟩
    · exact Task.bind_of_ok habandon
    · rw [hactivate] at h
      cases h
    · rw [hactivate] at h
      cases h
      exact ⟨rfl, (Task.after_of_ok habandon).symm⟩

/-- **A ready transfer is activated** after the acknowledgement, if there is one, and the pause. -/
theorem activation_of_ready {u : UpdateSettings} {m : Device C F} (ack : Option Ack)
    (hready : m.transfer.phase = .ready) :
    ∃ moment e m', (activate u ack : Task C F DeviceError UpdateError) m = .ok e m' ∧
      Activation u ack m moment e m' := by
  unfold activate
  rw [Device.bind_transferNow]
  simp only [hready, ne_eq, not_true_eq_false, if_false]
  cases ack with
  | none => exact ⟨_, activation_at u none rfl ⟨.error .encode, by simp [Device.calls_note]⟩⟩
  | some ack =>
    simp only []
    rw [Task.bind_discard_attempt, Device.after_acknowledge, Device.bind_wait]
    exact ⟨_, activation_at u (some ack) rfl ⟨(m.uplink.publish ack).1, by simp [Device.calls, Device.note]⟩⟩

end Activation

end Update
end Firmware
