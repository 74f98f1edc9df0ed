import Firmware.Service
import Firmware.Proofs.Task
/-!
# Keeping — what the parts of an update keep, the update keeps

An update is made of operations on the source and the log, and of the four operations of a transfer.  A property of
devices that all of these keep is kept by fetching, receiving and downloading as wholes, on every way through them.
-/
open Firmware.Task (Keeps keeps_pure keeps_throw keeps_conclude keeps_bind keeps_attempt keeps_discard
  keeps_attempt_bind keeps_raising)

namespace Firmware

def Call.isOutward : Call → Bool
  | .connect .. | .disconnect .. | .fetch .. | .wait _ | .tell _ => true
  | .create .. | .write .. | .close .. | .abort _ | .activate _ | .setState .. | .acknowledge .. | .drive .. => false

namespace Device

variable {C F ε : Type}

/-- `P` outlasts every operation on the source, the clock and the log. -/
def KeptOutward (P : Device C F → Prop) : Prop :=
  ∀ d source call, Call.isOutward call = true → P d → P ({ d with source }.note call)

namespace KeptOutward

variable {P : Device C F → Prop} (h : KeptOutward P)
include h

theorem note {d : Device C F} (call : Call) (hcall : call.isOutward = true) (hd : P d) : P (d.note call) :=
  h d d.source call hcall hd

theorem connect [RangeSource C] (host : String) : Keeps P (Device.connect host) := fun d hd => by
  unfold Device.connect
  exact keeps_conclude _ _ (h d _ _ rfl hd)

theorem disconnect [RangeSource C] : Keeps P (Device.disconnect : Task C F ε Unit) := fun d hd => h d _ _ rfl hd

theorem fetch [RangeSource C] (resource : String) (range : ByteRange) (buffer : Bytes) :
    Keeps P (Device.fetch resource range buffer : Task C F ε Fetched) := fun d hd => h d _ _ rfl hd

theorem wait (ms : UInt32) : Keeps P (Device.wait ms : Task C F ε Unit) := fun d hd => h d d.source _ rfl hd

theorem tell (event : Event) : Keeps P (Device.tell event : Task C F ε Unit) := fun d hd => h d d.source _ rfl hd

end KeptOutward

structure KeptInward [FlashDevice F] (P : Device C F → Prop) : Prop where
  transfer : ∀ d transfer, P d → P { d with transfer }
  create : ∀ file, Keeps P (Device.create file)
  write : ∀ offset block, Keeps P (Device.write offset block)
  close : ∀ file, Keeps P (Device.close file)
  abort : Keeps P Device.abort
  setState : ∀ state, Keeps P (Device.setState state)

end Device

namespace Transfer

variable {C F ε : Type} [FlashDevice F] {P : Device C F → Prop} (h : Device.KeptInward P)
include h

theorem keeps_setTransfer (transfer : Transfer) : Keeps P (Device.setTransfer transfer : Task C F ε Unit) :=
  fun d hd => h.transfer d _ hd

theorem keeps_setPhase (phase : Phase) : Keeps P (Device.setPhase phase : Task C F ε Unit) :=
  fun d hd => h.transfer d _ hd

theorem keeps_begin (file : ReceiveFile) : Keeps P (begin file : Task C F UpdateError Unit) := by
  unfold begin
  refine keeps_bind (fun _ hd => hd) fun transfer => ?_
  simp only [Task.throw_bind]
  split
  · exact keeps_throw _
  split
  · exact keeps_throw _
  refine keeps_attempt_bind (h.create file) (fun e => ?_) fun _ => ?_
  · exact keeps_bind (keeps_setTransfer h _) fun _ => keeps_throw _
  · exact keeps_setTransfer h _

theorem keeps_write (offset : UInt32) (block : Bytes) : Keeps P (write offset block : Task C F UpdateError UInt32) := by
  unfold write
  refine keeps_bind (fun _ hd => hd) fun transfer => ?_
  simp only [Task.throw_bind]
  split
  · split
    · exact keeps_throw _
    split
    · exact keeps_throw _
    refine keeps_attempt_bind (h.write _ _) (fun e => ?_) fun taken => ?_
    · exact keeps_bind (keeps_setPhase h _) fun _ => keeps_throw _
    · simp only []
      split
      · exact keeps_bind (keeps_setPhase h _) fun _ => keeps_throw _
      · exact keeps_bind (keeps_setPhase h _) fun _ => keeps_pure _
  · exact keeps_throw _

theorem keeps_finish : Keeps P (finish : Task C F UpdateError Unit) := by
  unfold finish
  refine keeps_bind (fun _ hd => hd) fun transfer => ?_
  simp only [Task.throw_bind]
  split
  · split
    · exact keeps_throw _
    split
    · refine keeps_bind (keeps_setPhase h _) fun _ => keeps_attempt_bind (h.close _) (fun e => ?_) fun _ => ?_
      · refine keeps_bind (keeps_discard (keeps_attempt (h.setState _))) fun _ => ?_
        exact keeps_bind (keeps_setPhase h _) fun _ => keeps_throw _
      · refine keeps_attempt_bind (h.setState _) (fun e => ?_) fun _ => ?_
        · exact keeps_bind (keeps_setPhase h _) fun _ => keeps_throw _
        · exact keeps_setPhase h _
    · exact keeps_throw _
  · exact keeps_throw _

theorem keeps_abandon : Keeps P (abandon : Task C F ε Unit) := by
  unfold abandon
  refine keeps_bind (fun _ hd => hd) fun transfer => ?_
  split
  · exact keeps_pure _
  refine keeps_bind (keeps_discard (keeps_attempt h.abort)) fun _ => keeps_bind (fun _ hd => hd) fun state => ?_
  split
  · exact keeps_bind (keeps_discard (keeps_attempt (h.setState _))) fun _ => keeps_setTransfer h _
  · exact keeps_setTransfer h _

end Transfer

namespace Download

variable {C F ε : Type} {P : Device C F → Prop}

def report (u : UpdateSettings) (total index : UInt32) (range : ByteRange) : Task C F ε Unit :=
  if tellsProgress u index then Device.tell (.progress (percent range.first total) range.first total) else pure ()

theorem report_apply (u : UpdateSettings) (total index : UInt32) (range : ByteRange) (d : Device C F) :
    (report u total index range : Task C F ε Unit) d =
      .ok () (if tellsProgress u index then d.note (.tell (.progress (percent range.first total) range.first total))
        else d) := by
  unfold report
  by_cases htells : tellsProgress u index = true
  · rw [if_pos htells, if_pos htells]
    rfl
  · rw [if_neg htells, if_neg htells]
    rfl

theorem keeps_report (h : Device.KeptOutward P) (u : UpdateSettings) (total index : UInt32) (range : ByteRange) :
    Keeps P (report u total index range : Task C F ε Unit) := by
  unfold report
  by_cases htells : tellsProgress u index = true
  · rw [if_pos htells]
    exact h.tell _
  · rw [if_neg htells]
    exact keeps_pure _

variable [RangeSource C]

theorem fetchAndWrite_of_room [FlashDevice F] {u : UpdateSettings} {url : ImageUrl} {total index : UInt32}
    {range : ByteRange} {buffer : Bytes} (h : range.size.toNat ≤ buffer.length) :
    (fetchAndWrite u url total index range buffer : Task C F UpdateError Bytes) =
      fetchChunk u url range 0 (buffer.take range.size.toNat) u.maxRetries.toNat >>= fun chunk =>
        report u total index range >>= fun _ => discard (Transfer.write range.first chunk) >>= fun _ =>
          pure (chunk ++ buffer.drop range.size.toNat) := by
  unfold fetchAndWrite report
  simp only [Task.throw_bind]
  rw [if_neg (Nat.not_lt.2 h)]
  congr 1
  funext chunk
  by_cases htells : tellsProgress u index = true
  · rw [if_pos htells, if_pos htells]
  · rw [if_neg htells, if_neg htells, pure_bind]

theorem fetchAndWrite_of_no_room [FlashDevice F] {u : UpdateSettings} {url : ImageUrl} {total index : UInt32}
    {range : ByteRange} {buffer : Bytes} (h : buffer.length < range.size.toNat) :
    (fetchAndWrite u url total index range buffer : Task C F UpdateError Bytes) =
      throw (.fetch (.bodyTooLarge (UInt64.ofNat buffer.length))) := by
  unfold fetchAndWrite
  simp only [Task.throw_bind]
  rw [if_pos h]

section Outward

variable (h : Device.KeptOutward P)
include h

theorem keeps_probe (resource : String) (maxSize : UInt32) :
    Keeps P (probe resource maxSize : Task C F UpdateError UInt32) := by
  unfold probe
  refine keeps_bind (h.fetch _ _ _) fun fetched => ?_
  simp only [Task.throw_bind]
  split
  · exact keeps_throw _
  split
  · exact keeps_throw _
  split
  · split
    · exact keeps_throw _
    · refine keeps_bind (keeps_conclude _) fun total => ?_
      split
      · exact keeps_throw _
      split
      · exact keeps_throw _
      · exact keeps_pure _
  · exact keeps_throw _

theorem keeps_reconnect (u : UpdateSettings) (host : String) : Keeps P (reconnect u host : Task C F ε Unit) :=
  keeps_bind (h.wait _) fun _ => keeps_bind h.disconnect fun _ => keeps_discard (keeps_attempt (h.connect _))

theorem keeps_request (url : ImageUrl) (range : ByteRange) (buffer : Bytes) :
    Keeps P (request url range buffer : Task C F UpdateError Reply) := by
  unfold request
  refine keeps_bind (h.fetch _ _ _) fun fetched => ?_
  simp only [Task.throw_bind]
  split
  · split
    · exact keeps_throw _
    split
    · exact keeps_throw _
    · exact keeps_pure _
  · split
    · exact keeps_throw _
    · exact keeps_pure _

theorem keeps_fetchChunk (u : UpdateSettings) (url : ImageUrl) (range : ByteRange) (retries : Nat) :
    ∀ (attempts : UInt32) (buffer : Bytes),
      Keeps P (fetchChunk u url range attempts buffer retries : Task C F UpdateError Bytes) := by
  induction retries with
  | zero =>
    intro attempts buffer
    refine keeps_bind (keeps_request h _ _ _) fun reply => ?_
    cases reply with
    | received buffer => exact keeps_pure _
    | interrupted buffer => exact keeps_throw _
  | succ retries ih =>
    intro attempts buffer
    refine keeps_bind (keeps_request h _ _ _) fun reply => ?_
    cases reply with
    | received buffer => exact keeps_pure _
    | interrupted buffer => exact keeps_bind (keeps_reconnect h _ _) fun _ => ih _ _

theorem keeps_fetchAndWrite [FlashDevice F]
    (hwrite : ∀ offset block, Keeps P (Transfer.write offset block : Task C F _ _)) (u : UpdateSettings)
    (url : ImageUrl) (total index : UInt32) (range : ByteRange) (buffer : Bytes) :
    Keeps P (fetchAndWrite u url total index range buffer : Task C F UpdateError Bytes) := by
  by_cases hroom : range.size.toNat ≤ buffer.length
  · rw [fetchAndWrite_of_room hroom]
    refine keeps_bind (keeps_fetchChunk h _ _ _ _ _ _) fun chunk => keeps_bind (keeps_report h _ _ _ _) fun _ => ?_
    exact keeps_bind (keeps_discard (hwrite _ _)) fun _ => keeps_pure _
  · rw [fetchAndWrite_of_no_room (Nat.lt_of_not_le hroom)]
    exact keeps_throw _

end Outward

variable [FlashDevice F]

theorem runPlan_of_none {u : UpdateSettings} {url : ImageUrl} {plan : ChunkPlan} (index : UInt32) (buffer : Bytes)
    (h : plan.step? = none) : (runPlan u url plan index buffer : Task C F UpdateError Unit) = pure () := by
  rw [runPlan]
  split
  · rfl
  · simp_all

theorem runPlan_of_some {u : UpdateSettings} {url : ImageUrl} {plan rest : ChunkPlan} {range : ByteRange}
    (index : UInt32) (buffer : Bytes) (h : plan.step? = some (range, rest)) :
    (runPlan u url plan index buffer : Task C F UpdateError Unit) =
      fetchAndWrite u url plan.total index range buffer >>= fun buffer => runPlan u url rest (index + 1) buffer := by
  rw [runPlan]
  split
  · simp_all
  · rename_i h'
    rw [h] at h'
    cases h'
    rfl

theorem keeps_runPlan (h : Device.KeptOutward P)
    (hwrite : ∀ offset block, Keeps P (Transfer.write offset block : Task C F _ _))
    (u : UpdateSettings) (url : ImageUrl) (plan : ChunkPlan) :
    ∀ (index : UInt32) (buffer : Bytes), Keeps P (runPlan u url plan index buffer : Task C F UpdateError Unit) := by
  induction plan using ChunkPlan.ranges.induct with
  | case1 plan hstep =>
    intro index buffer
    rw [runPlan_of_none _ _ hstep]
    exact keeps_pure _
  | case2 plan range rest hstep ih =>
    intro index buffer
    rw [runPlan_of_some _ _ hstep]
    exact keeps_bind (keeps_fetchAndWrite h hwrite _ _ _ _ _ _) fun _ => ih _ _

end Download

namespace Update

variable {C F ε : Type} [FlashDevice F] {P : Device C F → Prop}

/-- `P` outlasts all that a download is made of. -/
structure Keeping (P : Device C F → Prop) : Prop where
  outward : Device.KeptOutward P
  begin : ∀ file, Keeps P (Transfer.begin file)
  write : ∀ offset block, Keeps P (Transfer.write offset block)
  finish : Keeps P Transfer.finish
  abandon : ∀ ε : Type, Keeps P (Transfer.abandon : Task C F ε Unit)

theorem Keeping.of_inward (hout : Device.KeptOutward P) (hin : Device.KeptInward P) : Keeping P where
  outward := hout
  begin := Transfer.keeps_begin hin
  write := Transfer.keeps_write hin
  finish := Transfer.keeps_finish hin
  abandon _ := Transfer.keeps_abandon hin

theorem keeps_receive [RangeSource C] (h : Keeping P) (u : UpdateSettings) (url : ImageUrl)
    (digest : Option ImageDigest) : Keeps P (receive u url digest : Task C F UpdateError UInt32) :=
  keeps_bind (keeps_raising (h.outward.connect _)) fun _ =>
  keeps_bind (Download.keeps_probe h.outward _ _) fun _ =>
  keeps_bind (h.begin _) fun _ =>
  keeps_bind (Download.keeps_runPlan h.outward h.write _ _ _ _ _) fun _ =>
  keeps_bind h.outward.disconnect fun _ =>
  keeps_bind (h.outward.wait _) fun _ =>
  keeps_bind h.finish fun _ =>
  keeps_bind (h.outward.tell _) fun _ => keeps_pure _

theorem keeps_download [RangeSource C] (h : Keeping P) (u : UpdateSettings) (offer : Offer) :
    Keeps P (download u offer : Task C F UpdateError UInt32) := by
  unfold download
  split
  · exact keeps_throw _
  refine keeps_bind (h.outward.tell _) fun _ => keeps_attempt_bind (keeps_receive h _ _ _) (fun e => ?_) fun total => ?_
  · exact keeps_bind h.outward.disconnect fun _ => keeps_bind (h.abandon _) fun _ => keeps_throw _
  · exact keeps_bind h.outward.disconnect fun _ => keeps_pure _

theorem keeps_activate (hout : Device.KeptOutward P) (habandon : Keeps P (Transfer.abandon : Task C F ε Unit))
    (hack : ∀ ack, Keeps P (Device.acknowledge ack)) (hactivate : Keeps P Device.activate) (u : UpdateSettings)
    (ack : Option Ack) : Keeps P (activate u ack : Task C F ε UpdateError) := by
  unfold activate
  refine keeps_bind (fun _ hd => hd) fun transfer => ?_
  -- With an acknowledgement and without one, what is left to do is the same.
  have hrest : ∀ next : Except FlashError Unit → Task C F ε UpdateError, (∀ e, Keeps P (next (.error e))) →
      (∀ a, Keeps P (next (.ok a))) →
      Keeps P (Device.wait u.ackSettleMs >>= fun _ => Task.attempt Device.activate >>= next) :=
    fun _ herror hok => keeps_bind (hout.wait _) fun _ => keeps_attempt_bind hactivate herror hok
  split
  · exact keeps_pure _
  cases ack with
  | none => exact hrest _ (fun e => keeps_bind habandon fun _ => keeps_pure _) fun _ => keeps_pure _
  | some ack =>
    exact keeps_bind (keeps_discard (keeps_attempt (hack ack))) fun _ =>
      hrest _ (fun e => keeps_bind habandon fun _ => keeps_pure _) fun _ => keeps_pure _

end Update

namespace Service

variable {C F : Type} [RangeSource C] [FlashDevice F] {P : Device C F → Prop}

/-- `P` outlasts all that answering a message and following an offer are made of; a download and an activation may break
it on their way. -/
structure Answering (P : Device C F → Prop) : Prop where
  tell : ∀ event, Keeps P (Device.tell event : Task C F DeviceError Unit)
  acknowledge : ∀ ack, Keeps P (Device.acknowledge ack)
  download : ∀ u offer, Keeps P (Update.download u offer)
  activate : ∀ u ack, Keeps P (Update.activate u ack : Task C F DeviceError UpdateError)

structure Keeping (P : Device C F → Prop) : Prop extends Answering P where
  drive : ∀ led on, Keeps P (Device.drive led on : Task C F DeviceError Unit)

/-- A property outlasts the answering of messages if it outlasts a download, discarding a transfer, an activation, and
every entry that the other operations make in the journal. -/
theorem Answering.of_parts (hout : Device.KeptOutward P)
    (hack : ∀ d ack, P d →
      P ({ d with uplink := (d.uplink.publish ack).2 }.note (.acknowledge ack (d.uplink.publish ack).1)))
    (hdownload : ∀ u offer, Keeps P (Update.download u offer))
    (habandon : Keeps P (Transfer.abandon : Task C F DeviceError Unit)) (hactivate : Keeps P Device.activate) :
    Answering P := by
  have hacknowledge (ack : Ack) : Keeps P (Device.acknowledge ack) := fun d hd => by
    unfold Device.acknowledge
    exact keeps_conclude _ _ (hack d ack hd)
  exact ⟨hout.tell, hacknowledge, hdownload, Update.keeps_activate hout habandon hacknowledge hactivate⟩

theorem Keeping.of_parts (hout : Device.KeptOutward P)
    (hack : ∀ d ack, P d →
      P ({ d with uplink := (d.uplink.publish ack).2 }.note (.acknowledge ack (d.uplink.publish ack).1)))
    (hdrive : ∀ d led on, P d → P (d.note (.drive led on))) (hdownload : ∀ u offer, Keeps P (Update.download u offer))
    (habandon : Keeps P (Transfer.abandon : Task C F DeviceError Unit)) (hactivate : Keeps P Device.activate) :
    Keeping P := by
  refine ⟨.of_parts hout hack hdownload habandon hactivate, fun led on d hd => ?_⟩
  unfold Task.after Device.drive
  dsimp only
  split
  · exact hdrive d led on hd
  · exact hd

section Answering

variable (h : Answering P)
include h

theorem keeps_answer (id : Option AckId) (kind : RequestKind) (success : Bool) (message : String) :
    Keeps P (answer id kind success message : Task C F DeviceError Unit) := by
  cases id with
  | none => exact keeps_pure _
  | some id => exact keeps_raising (h.acknowledge _)

theorem keeps_giveUp (e : UpdateError) (id : Option AckId) : Keeps P (giveUp e id : Task C F DeviceError Unit) :=
  keeps_bind (h.tell _) fun _ => keeps_answer h _ _ _ _

theorem keeps_perform (s : Service) (offer : Offer) : Keeps P (s.perform offer : Task C F DeviceError Unit) := by
  refine keeps_attempt_bind (h.download _ _) (fun e => ?_) fun total => ?_
  · exact keeps_giveUp h _ _
  · exact keeps_bind (h.activate _ _) fun _ => h.tell _

theorem keeps_handleOffer (s : Service) (offer : Offer) :
    Keeps P (s.handleOffer offer : Task C F DeviceError Unit) := by
  unfold handleOffer
  split
  · exact keeps_bind (h.tell _) fun _ => keeps_answer h _ _ _ _
  · split
    · exact keeps_perform h _ _
    · exact keeps_giveUp h _ _
  · exact keeps_perform h _ _

theorem keeps_act (s : Service) {message : Inbound} (hmessage : ∀ command text id, message ≠ .command command text id) :
    Keeps P (s.act message : Task C F DeviceError Unit) := by
  cases message with
  | command command text id => exact absurd rfl (hmessage command text id)
  | offer offer => exact keeps_handleOffer h _ _
  | malformed kind id e => exact keeps_bind (keeps_answer h _ _ _ _) fun _ => keeps_throw _
  | other _ => exact keeps_pure _

end Answering

variable (h : Keeping P)
include h

theorem keeps_handleCommand (command : Command) (id : Option AckId) :
    Keeps P (handleCommand command id : Task C F DeviceError Unit) := by
  refine keeps_bind ?_ fun _ => keeps_bind (h.tell _) fun _ => keeps_answer h.toAnswering _ _ _ _
  cases command with
  | led led on => exact keeps_bind (h.drive _ _) fun _ => keeps_pure _
  | ping | invalid _ | unknown => exact keeps_pure _

theorem keeps_handle (s : Service) (payload : Bytes) : Keeps P (s.handle payload : Task C F DeviceError Unit) := by
  unfold handle
  split
  · rename_i message _
    cases message with
    | command command _ id => exact keeps_handleCommand h _ _
    | offer | malformed | other => exact keeps_act h.toAnswering s (by simp)
  · exact keeps_throw _

end Service
end Firmware
