import Firmware.Proofs.Update
import Firmware.Proofs.Size
import Firmware.Source.Rehearsed
/-!
# Serving — a download from a server that serves

A source serves an image if its sessions open and every range of the image is answered with its octets.  From such a
source, and with a flash device that has room and refuses nothing, every step of a download goes well: the probe, each
chunk of the plan, the file that is closed.  `Underway` is what holds between two chunks.
-/
namespace Firmware

/-- The response to a request for `range` that sends just these octets of the image.  With the first octet alone it
declares the size of the image; with other ranges it may leave that out. -/
structure Fetched.Sends (image : Bytes) (range : ByteRange) (fetched : Fetched) : Prop where
  answer : ∃ answer, fetched.answer = .ok answer ∧ answer.isFailure = false ∧
    answer.bodySize.toNat = range.size.toNat ∧
    (range = .firstOctet → ∃ header, answer.contentRange = some header ∧ header.text = range.sent image.length)
  buffer : fetched.buffer = (image.drop range.first.toNat).take range.size.toNat

/-- At this URL a source in `ready` opens a session, and while it is in `opened` it sends every range of the image. -/
structure RangeSource.Serves {C : Type} [RangeSource C] (url : ImageUrl) (image : Bytes) (ready opened : C → Prop) :
    Prop where
  connect : ∀ c, ready c → (connect c url.host.text).1 = .ok () ∧ opened (connect c url.host.text).2
  fetch : ∀ c range buffer, opened c → range.first ≤ range.last → range.last.toNat < image.length →
    buffer.length = range.size.toNat →
    (fetch c url.resource.text range buffer).1.Sends image range ∧
      opened (fetch c url.resource.text range buffer).2

theorem ByteRange.size_toNat {range : ByteRange} (h : range.first ≤ range.last)
    (hlast : range.last.toNat + 1 < 4294967296) : range.size.toNat = range.last.toNat + 1 - range.first.toNat := by
  have hle := UInt32.le_iff_toNat_le.1 h
  rw [size, UInt32.toNat_add, UInt32.toNat_sub_of_le _ _ h, UInt32.toNat_one, Nat.mod_eq_of_lt (by omega)]
  omega

namespace RehearsedSource

theorem sends_serve {image : ByteArray} (hsize : image.size < 100000000) {range : ByteRange} {buffer : Bytes}
    (hle : range.first ≤ range.last) (hlast : range.last.toNat < image.size)
    (hbuffer : buffer.length = range.size.toNat) : (serve image range buffer).Sends image.data.toList range := by
  have hlength : image.data.toList.length = image.size := Array.length_toList
  have hfirst := UInt32.le_iff_toNat_le.1 hle
  have hrange := ByteRange.size_toNat hle (by omega)
  have hend : min range.last.toNat (image.size - 1) = range.last.toNat := by omega
  have hbody : (image.extract range.first.toNat (range.last.toNat + 1)).data.toList =
      (image.data.toList.drop range.first.toNat).take range.size.toNat := by
    rw [ByteArray.data_extract, Array.toList_extract, hrange]
  generalize hslice : (image.data.toList.drop range.first.toNat).take range.size.toNat = body at hbody
  have hfull : body.length = buffer.length := by
    rw [← hslice, List.length_take, List.length_drop, hlength, hbuffer, hrange]
    omega
  have hfits : (range.sent image.size).utf8ByteSize ≤ 32 :=
    ByteRange.utf8ByteSize_sent_le (by omega) (by omega) (by omega)
  have hheader : Bounded.ofText? 32 (range.sent image.size) = some ⟨range.sent image.size, hfits⟩ :=
    Bounded.ofText?_text ⟨range.sent image.size, hfits⟩
  have hover : overlay buffer body = body := by
    unfold overlay
    rw [← hfull, List.take_length, hfull, List.drop_length, List.append_nil]
  have hserve : serve image range buffer =
      ⟨.ok { status := 206, contentRange := some ⟨range.sent image.size, hfits⟩
             bodySize := UInt64.ofNat buffer.length }, body⟩ := by
    unfold serve
    simp only [hend, hbody, hfull]
    unfold respond
    rw [if_neg (by omega)]
    unfold ByteRange.sent at hheader ⊢
    simp only [hheader, hover]
  rw [hserve]
  refine ⟨⟨_, rfl, rfl, ?_, fun _ => ⟨_, rfl, by rw [hlength]⟩⟩, hslice.symm⟩
  have hlt := range.size.toNat_lt
  rw [UInt64.toNat_ofNat_of_lt' (by simp only [UInt64.size]; omega), hbuffer]

theorem serves (url : ImageUrl) {image : ByteArray} (hsize : image.size < 100000000) :
    RangeSource.Serves url image.data.toList
      (fun c : RehearsedSource => c.image = image ∧ c.connects = [] ∧ c.fetches = [])
      (fun c : RehearsedSource => c.image = image ∧ c.fetches = [] ∧ c.connected = true) where
  connect c h := by
    obtain ⟨himage, hconnects, hfetches⟩ := h
    simp only [RangeSource.connect, connect, hconnects, List.head?_nil, Option.join_none]
    exact ⟨trivial, himage, hfetches, trivial⟩
  fetch c range buffer h hle hlast hbuffer := by
    obtain ⟨himage, hfetches, hconnected⟩ := h
    have hrun : RangeSource.fetch c url.resource.text range buffer =
        (serve image range buffer, { c with fetches := [] }) := by
      simp only [RangeSource.fetch, fetch, hconnected, hfetches, himage]
      rfl
    rw [hrun]
    exact ⟨sends_serve hsize hle (by simpa using hlast) hbuffer, himage, rfl, hconnected⟩

end RehearsedSource

namespace Download

variable {C : Type} [RangeSource C] {url : ImageUrl} {image : Bytes} {ready opened : C → Prop}

section Source

variable {F ε : Type} {d : Device C F}

theorem probe_of_serves (hserves : RangeSource.Serves url image ready opened) (hopen : opened d.source)
    (hpos : 0 < image.length) (hsize : image.length < 100000000) {maxSize : UInt32}
    (hmax : image.length ≤ maxSize.toNat) :
    ∃ source call, probe url.resource.text maxSize d = .ok (UInt32.ofNat image.length) ({ d with source }.note call) ∧
      call.isOutward = true ∧ opened source := by
  obtain ⟨⟨⟨answer, hanswer, hfailure, -, hdeclared⟩, -⟩, hopened⟩ :=
    hserves.fetch d.source .firstOctet [0] hopen (by decide) hpos rfl
  obtain ⟨header, hheader, htext⟩ := hdeclared rfl
  have hnonempty : header.isEmpty = false := by
    have htotal : 10 ≤ header.text.utf8ByteSize := by
      have hsent : ByteRange.firstOctet.sent image.length = "bytes 0-0/" ++ Decimal.text image.length := rfl
      have hlead : "bytes 0-0/".utf8ByteSize = 10 := by decide
      rw [htext, hsent, String.utf8ByteSize_append]
      omega
    unfold Bounded.isEmpty
    rw [String.isEmpty_eq_utf8ByteSize_beq_zero, beq_eq_false_iff_ne]
    omega
  have htotal : (UInt32.ofNat image.length).toNat = image.length :=
    UInt32.toNat_ofNat_of_lt' (by simp only [UInt32.size]; omega)
  have hne : UInt32.ofNat image.length ≠ 0 := fun h => by
    rw [h] at htotal
    simp at htotal
    omega
  have hle : ¬ maxSize < UInt32.ofNat image.length := by
    rw [UInt32.lt_iff_toNat_lt, htotal]
    omega
  unfold probe
  rw [Device.bind_fetch, hanswer]
  simp only [Task.throw_bind, hfailure, hheader, hnonempty, Bool.false_eq_true, if_false, htext,
    ImageSize.ofContentRange_sent hsize]
  rw [Task.bind_of_ok (Task.conclude_ok _ _), if_neg hne, if_neg hle]
  exact ⟨_, _, rfl, rfl, hopened⟩

theorem fetchChunk_of_serves (hserves : RangeSource.Serves url image ready opened) (hopen : opened d.source)
    (u : UpdateSettings) {range : ByteRange} (hle : range.first ≤ range.last)
    (hlast : range.last.toNat < image.length) {buffer : Bytes} (hbuffer : buffer.length = range.size.toNat)
    (attempts : UInt32) (retries : Nat) :
    ∃ source call, fetchChunk u url range attempts buffer retries d =
        .ok ((image.drop range.first.toNat).take range.size.toNat) ({ d with source }.note call) ∧
      call.isOutward = true ∧ opened source := by
  obtain ⟨⟨⟨answer, hanswer, hfailure, hsize, -⟩, hchunk⟩, hopened⟩ :=
    hserves.fetch d.source range buffer hopen hle hlast hbuffer
  rcases hfetch : RangeSource.fetch d.source url.resource.text range buffer with ⟨⟨given, left⟩, source⟩
  rw [hfetch] at hanswer hchunk hopened
  obtain rfl : left = _ := hchunk
  obtain rfl : given = _ := hanswer
  have haccepted := ByteRange.refusal?_ok_eq_none.2 ⟨hfailure, hsize⟩
  rcases request_cases hfetch with ⟨e, hrefusal, -⟩ | ⟨_, -, -, hrun⟩ | ⟨e, hbroken, -⟩
  · cases haccepted.symm.trans hrefusal
  · exact ⟨source, _, fetchChunk_of_received u attempts retries hrun, rfl, hopened⟩
  · cases hbroken

end Source

/-- Between two chunks: the first `n` octets of the image are written, a session is open, and no fault is to come. -/
structure Underway (file : ReceiveFile) (image : Bytes) (opened : C → Prop) (n : Nat) (d : Device C FaultyPartition) :
    Prop where
  inStep : Transfer.InStep file (image.take n) d
  opened : opened d.source
  sound : d.flash = .sound d.flash.partition
  room : file.size.toNat ≤ d.flash.partition.capacity

variable {file : ReceiveFile} {d : Device C FaultyPartition}

omit [RangeSource C] in
theorem Underway.note {n : Nat} (h : Underway file image opened n d) {source : C} (hopen : opened source) {call : Call}
    (hcall : call.isOutward = true) : Underway file image opened n ({ d with source }.note call) :=
  ⟨Transfer.keptOutward_inStep file (image.take n) d source call hcall h.inStep, hopen, h.sound, h.room⟩

omit [RangeSource C] in
theorem Underway.report {n : Nat} (h : Underway file image opened n d) (u : UpdateSettings) (total index : UInt32)
    (range : ByteRange) :
    ∃ d', (report u total index range : Task C FaultyPartition UpdateError Unit) d = .ok () d' ∧
      Underway file image opened n d' := by
  rw [report_apply]
  by_cases htells : tellsProgress u index = true
  · rw [if_pos htells]
    exact ⟨_, rfl, h.note h.opened rfl⟩
  · rw [if_neg htells]
    exact ⟨d, rfl, h⟩

omit [RangeSource C] in
theorem Underway.write {n size : Nat} (h : Underway file image opened n d) (hfile : file.size.toNat = image.length)
    (hfits : n + size ≤ image.length) :
    ∃ count d', Transfer.write (UInt32.ofNat n) ((image.drop n).take size) d = .ok count d' ∧
      Underway file image opened (n + size) d' := by
  have hwritten : (image.take n).length = n := by
    rw [List.length_take]
    omega
  have hchunk : ((image.drop n).take size).length = size := by
    rw [List.length_take, List.length_drop]
    omega
  have hroom : (image.take n).length + ((image.drop n).take size).length ≤ file.size.toNat := by omega
  obtain ⟨count, d', hwrite, hundisturbed⟩ := h.inStep.write_of_sound h.sound h.room hroom
  obtain ⟨hnext, -⟩ := h.inStep.write hwrite
  rw [hwritten] at hwrite
  rw [← List.take_add] at hnext
  refine ⟨count, d', hwrite, hnext, ?_, hundisturbed.sound, ?_⟩
  · rw [hundisturbed.source]
    exact h.opened
  · rw [hundisturbed.capacity]
    exact h.room

theorem fetchAndWrite_of_serves (hserves : RangeSource.Serves url image ready opened)
    (hfile : file.size.toNat = image.length) {range : ByteRange} (h : Underway file image opened range.first.toNat d)
    (hle : range.first ≤ range.last) (hlast : range.last.toNat < image.length) {buffer : Bytes}
    (hbuffer : range.size.toNat ≤ buffer.length) (u : UpdateSettings) (total index : UInt32) :
    ∃ buffer' d', fetchAndWrite u url total index range buffer d = .ok buffer' d' ∧ buffer'.length = buffer.length ∧
      Underway file image opened (range.first.toNat + range.size.toNat) d' := by
  have hlt := file.size.toNat_lt
  have hrange := ByteRange.size_toNat hle (by omega)
  have hfirst := UInt32.le_iff_toNat_le.1 hle
  have htake : (buffer.take range.size.toNat).length = range.size.toNat := by
    rw [List.length_take]
    omega
  obtain ⟨source, call, hchunk, houtward, hopened⟩ :=
    fetchChunk_of_serves hserves h.opened u hle hlast htake 0 u.maxRetries.toNat
  have hm := h.note hopened houtward
  obtain ⟨m, hreport, hm⟩ := hm.report u total index range
  have hfits : range.first.toNat + range.size.toNat ≤ image.length := by omega
  obtain ⟨count, d', hwrite, hd'⟩ := hm.write hfile hfits
  rw [UInt32.ofNat_toNat] at hwrite
  rw [fetchAndWrite_of_room hbuffer, Task.bind_of_ok hchunk, Task.bind_of_ok hreport,
    Task.bind_of_ok (Task.discard_eq_ok.2 ⟨count, hwrite⟩)]
  refine ⟨_, d', rfl, ?_, hd'⟩
  rw [List.length_append, List.length_take, List.length_drop, List.length_drop]
  omega

/-- **A plan is run to its end**: from what is written so far to the whole image. -/
theorem runPlan_of_serves (hserves : RangeSource.Serves url image ready opened) (hfile : file.size.toNat = image.length)
    (u : UpdateSettings) (plan : ChunkPlan) :
    ∀ {d : Device C FaultyPartition} {buffer : Bytes} (index : UInt32), plan.total.toNat = image.length →
      min image.length plan.chunk.toNat ≤ buffer.length → Underway file image opened plan.next.toNat d →
      ∃ d', runPlan u url plan index buffer d = .ok () d' ∧ Underway file image opened image.length d' := by
  induction plan using ChunkPlan.ranges.induct with
  | case1 plan hstep =>
    intro d buffer index htotal _ h
    rw [runPlan_of_none _ _ hstep]
    have hend := ChunkPlan.total_le_next_of_step? hstep
    refine ⟨d, rfl, ⟨?_, h.opened, h.sound, h.room⟩⟩
    have hwhole : image.take plan.next.toNat = image.take image.length := by
      rw [List.take_of_length_le (by omega), List.take_length]
    rw [← hwhole]
    exact h.inStep
  | case2 plan range rest hstep ih =>
    intro d buffer index htotal hbuffer h
    have step := ChunkPlan.step_of_step? hstep
    have hsize := step.size
    have hnext := step.next
    rw [← step.first] at h
    have hle : range.first ≤ range.last := by
      rw [UInt32.le_iff_toNat_le, step.first]
      have := step.size_pos
      have := step.last
      omega
    have hlast : range.last.toNat < image.length := by
      rw [← htotal]
      exact step.inside
    obtain ⟨buffer', m, hchunk, hlength, hm⟩ := fetchAndWrite_of_serves hserves hfile h hle hlast
      (by omega : range.size.toNat ≤ buffer.length) u plan.total index
    rw [step.first, ← hnext] at hm
    rw [← hlength, ← step.chunk] at hbuffer
    rw [← step.total] at htotal
    obtain ⟨d', hrun, hd'⟩ := ih (index + 1) htotal hbuffer hm
    rw [runPlan_of_some _ _ hstep, Task.bind_of_ok hchunk]
    exact ⟨d', hrun, hd'⟩

end Download
namespace Update

variable {C : Type} [RangeSource C] {url : ImageUrl} {image : Bytes} {ready opened : C → Prop} {u : UpdateSettings}

/-- An image that the settings let through, with the digest that was offered for it, if there is one. -/
structure Admissible (u : UpdateSettings) (digest : Option ImageDigest) (image : Bytes) : Prop where
  chunk : u.chunkSize ≠ 0
  pos : 0 < image.length
  digits : image.length < 100000000
  max : image.length ≤ u.maxImageSize.toNat
  digest : ∀ offered, digest = some offered → u.signerCertPath.isEmpty = false ∧ Sha256.digest image = offered.octets

/-- A device that nothing keeps from receiving an image: a server is ready, no transfer is under way, the flash device
has room and refuses nothing. -/
structure Able (ready : C → Prop) (image : Bytes) (d : Device C FaultyPartition) : Prop where
  ready : ready d.source
  free : d.transfer.isActive = false
  sound : d.flash = .sound d.flash.partition
  room : image.length ≤ d.flash.partition.capacity

omit [RangeSource C] in
theorem Able.note {d : Device C FaultyPartition} (hd : Able ready image d) {source : C} (hopened : opened source)
    (call : Call) : Able opened image ({ d with source }.note call) :=
  ⟨hopened, hd.free, hd.sound, hd.room⟩

theorem connect_of_serves (hserves : RangeSource.Serves url image ready opened) {d : Device C FaultyPartition}
    (hd : Able ready image d) :
    ∃ m, Task.raising UpdateError.fetch (Device.connect url.host.text) d = .ok () m ∧ Able opened image m := by
  obtain ⟨hanswer, hopened⟩ := hserves.connect d.source hd.ready
  exact ⟨_, Task.raising_eq_ok.2 (Task.conclude_eq_ok.2 ⟨hanswer, rfl⟩), hd.note hopened _⟩

omit [RangeSource C] in
theorem begin_of_able {file : ReceiveFile} {d : Device C FaultyPartition} (hd : Able opened image d)
    (hfile : file.size.toNat = image.length) (hpos : 0 < image.length) :
    ∃ m, Transfer.begin file d = .ok () m ∧ Download.Underway file image opened 0 m := by
  have hsize : file.size ≠ 0 := fun h => by
    rw [h] at hfile
    simp at hfile
    omega
  have hroom : file.size.toNat ≤ d.flash.partition.capacity := by
    rw [hfile]
    exact hd.room
  obtain ⟨m, hbegin, hundisturbed⟩ := Transfer.begin_of_sound hd.sound hd.free hsize hroom
  obtain ⟨hin, -⟩ := Transfer.inStep_begin hbegin
  refine ⟨m, hbegin, ⟨hin, ?_, hundisturbed.sound, ?_⟩⟩
  · rw [hundisturbed.source]
    exact hd.ready
  · rw [hundisturbed.capacity]
    exact hroom

theorem receive_of_serves (hserves : RangeSource.Serves url image ready opened) {digest : Option ImageDigest}
    (himage : Admissible u digest image) {d : Device C FaultyPartition} (hd : Able ready image d) :
    ∃ m, receive u url digest d = .ok (UInt32.ofNat image.length) m ∧ m.flash = .sound m.flash.partition ∧
      m.flash.partition.image = image := by
  have hdigits := himage.digits
  have htotal : (UInt32.ofNat image.length).toNat = image.length :=
    UInt32.toNat_ofNat_of_lt' (by simp only [UInt32.size]; omega)
  have hfile : (ReceiveFile.ofSettings u (UInt32.ofNat image.length) digest).size.toNat = image.length := htotal
  obtain ⟨m₁, hconnect, hm₁⟩ := connect_of_serves hserves hd
  obtain ⟨source, call, hprobe, -, hopened⟩ :=
    Download.probe_of_serves hserves hm₁.ready himage.pos hdigits himage.max
  obtain ⟨m₂, hbegin, hm₂⟩ := begin_of_able (hm₁.note hopened call) hfile himage.pos
  have hbuffer : min image.length (ChunkPlan.ofSize (UInt32.ofNat image.length) u.chunkSize).chunk.toNat ≤
      (List.replicate (min u.chunkSize.toNat (UInt32.ofNat image.length).toNat) (0 : UInt8)).length := by
    simp only [ChunkPlan.ofSize, if_neg himage.chunk, List.length_replicate, htotal]
    omega
  obtain ⟨m₃, hrun, hm₃⟩ := Download.runPlan_of_serves hserves hfile u
    (.ofSize (UInt32.ofNat image.length) u.chunkSize) 0 htotal hbuffer hm₂
  have hwhole : Transfer.InStep (.ofSettings u (UInt32.ofNat image.length) digest) image m₃ := by
    have := hm₃.inStep
    rwa [List.take_length] at this
  -- the transfer does not notice the end of the session and the pause
  have hkept := Transfer.keptOutward_inStep (C := C) (.ofSettings u (UInt32.ofNat image.length) digest) image
  have hclosing := hkept m₃ (RangeSource.disconnect m₃.source) (.disconnect (RangeSource.isOpen m₃.source)) rfl hwhole
  have hdone := hkept.note (.wait u.postDownloadDelayMs) rfl hclosing
  obtain ⟨m₄, hfinish, hsound⟩ := hdone.finish_of_sound hm₃.sound hfile.symm (fun signature hsignature => by
    obtain ⟨offered, hoffered, rfl⟩ := Option.map_eq_some_iff.1 hsignature
    exact himage.digest offered hoffered)
  obtain ⟨-, -, hslot, -⟩ := hdone.finish hfinish
  refine ⟨m₄.note (.tell (.downloaded (UInt32.ofNat image.length))), ?_, hsound, hslot⟩
  unfold receive
  rw [Task.bind_of_ok hconnect, Task.bind_of_ok hprobe, Task.bind_of_ok hbegin]
  unfold Download.run
  rw [Task.bind_of_ok hrun, Device.bind_disconnect, Device.bind_wait, Task.bind_of_ok hfinish, Device.bind_tell]
  rfl

/-- **An admissible image is downloaded whole.** -/
theorem download_of_serves (hserves : RangeSource.Serves url image ready opened) {offer : Offer}
    (himage : Admissible u offer.digest image) {d : Device C FaultyPartition} (hd : Able ready image d)
    (hurl : ImageUrl.parse offer.url.text = .ok url) :
    ∃ m, download u offer d = .ok (UInt32.ofNat image.length) m ∧ m.flash = .sound m.flash.partition ∧
      m.flash.partition.image = image := by
  obtain ⟨m, hreceive, hsound, hslot⟩ :=
    receive_of_serves hserves himage (hd.note hd.ready (.tell (.updateStarted offer.version.text)))
  refine ⟨{ m with source := RangeSource.disconnect m.source }.note (.disconnect (RangeSource.isOpen m.source)),
    ?_, hsound, hslot⟩
  unfold download
  simp only [hurl]
  have hstarted : receive u url offer.digest (d.note (.tell (.updateStarted offer.version.text))) =
      .ok (UInt32.ofNat image.length) m := hreceive
  rw [Device.bind_tell, Task.bind_of_ok (Task.attempt_apply _ _), Device.bind_disconnect, Task.result_of_ok hstarted,
    Task.after_of_ok hstarted]
  rfl

end Update
end Firmware
