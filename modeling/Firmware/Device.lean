import Firmware.Event
import Firmware.Flash.Device
import Firmware.Mqtt.Uplink
import Firmware.Source.Basic
/-!
# Device — everything an update touches, and a journal of every touch

A `Device` is a source of ranges, a flash device, the transfer under way, the uplink and the lights.  A `Task` runs on
a device and ends with a value or an error; either way the device is left as the task made it.  Every operation on a
part outside the device enters the journal together with its answer, so that what a task did can be read off and
reasoned about.
-/
namespace Firmware

inductive Phase where
  | idle
  | receiving (expected written : UInt32)
  | validating
  | ready
  | failed
deriving DecidableEq, Repr

structure Transfer where
  phase : Phase := .idle
  file : Option ReceiveFile := none
deriving DecidableEq

def Transfer.isActive (t : Transfer) : Bool :=
  match t.phase with
  | .receiving _ _ | .validating => true
  | .idle | .ready | .failed => false

/-- One operation on a part outside the device, with its answer. -/
inductive Call where
  | connect (host : String) (answer : Except FetchError Unit)
  | disconnect (wasOpen : Bool)
  /-- A fetch, and the buffer that it left. -/
  | fetch (resource : String) (range : ByteRange) (answer : Except FetchError RangeAnswer) (buffer : Bytes)
  | create (file : ReceiveFile) (answer : Except FlashError Unit)
  | write (offset : UInt32) (block : Bytes) (answer : Except FlashError Nat)
  | close (file : ReceiveFile) (answer : Except FlashError Unit)
  | abort (answer : Except FlashError Unit)
  | activate (answer : Except FlashError Unit)
  | setState (state : ImageState) (answer : Except FlashError Unit)
  | wait (ms : UInt32)
  | acknowledge (ack : Ack) (answer : Except AckError Publication)
  | drive (led : Led) (on : Bool)
  | tell (event : Event)

structure Device (C F : Type) where
  source : C
  flash : F
  transfer : Transfer := {}
  uplink : Uplink
  leds : LedBank := {}
  /-- The calls made, newest first. -/
  journal : List Call := []

/-- Work on a device that ends with a value or an error. -/
abbrev Task (C F ε α : Type) := EStateM ε (Device C F) α

namespace Device

variable {C F ε ε' α : Type}

/-- The calls made, oldest first. -/
def calls (d : Device C F) : List Call := d.journal.reverse

def note (d : Device C F) (call : Call) : Device C F := { d with journal := call :: d.journal }

theorem calls_note (d : Device C F) (call : Call) : (d.note call).calls = d.calls ++ [call] := by
  simp [note, calls]

end Device

namespace Task

variable {C F ε ε' α : Type}

def conclude (answer : Except ε α) : Task C F ε α := fun d =>
  match answer with
  | .ok a => .ok a d
  | .error e => .error e d

def attempt (task : Task C F ε α) : Task C F ε' (Except ε α) := fun d =>
  match task d with
  | .ok a d' => .ok (.ok a) d'
  | .error e d' => .ok (.error e) d'

def raising (wrap : ε → ε') (task : Task C F ε α) : Task C F ε' α := fun d =>
  match task d with
  | .ok a d' => .ok a d'
  | .error e d' => .error (wrap e) d'

end Task

namespace Device

variable {C F ε : Type}

/-! ## The source -/

section Source

variable [RangeSource C]

def connect (host : String) : Task C F FetchError Unit := fun d =>
  let (answer, source) := RangeSource.connect d.source host
  Task.conclude answer ({ d with source }.note (.connect host answer))

def disconnect : Task C F ε Unit := fun d =>
  .ok () ({ d with source := RangeSource.disconnect d.source }.note (.disconnect (RangeSource.isOpen d.source)))

def fetch (resource : String) (range : ByteRange) (buffer : Bytes) : Task C F ε Fetched := fun d =>
  let (fetched, source) := RangeSource.fetch d.source resource range buffer
  .ok fetched ({ d with source }.note (.fetch resource range fetched.answer fetched.buffer))

end Source

/-! ## The flash device -/

section Flash

variable [FlashDevice F]

def create (file : ReceiveFile) : Task C F FlashError Unit := fun d =>
  let (answer, flash) := FlashDevice.create d.flash file
  Task.conclude answer ({ d with flash }.note (.create file answer))

def write (offset : UInt32) (block : Bytes) : Task C F FlashError Nat := fun d =>
  let (answer, flash) := FlashDevice.write d.flash offset block
  Task.conclude answer ({ d with flash }.note (.write offset block answer))

def close (file : ReceiveFile) : Task C F FlashError Unit := fun d =>
  let (answer, flash) := FlashDevice.close d.flash file
  Task.conclude answer ({ d with flash }.note (.close file answer))

def abort : Task C F FlashError Unit := fun d =>
  let (answer, flash) := FlashDevice.abort d.flash
  Task.conclude answer ({ d with flash }.note (.abort answer))

def activate : Task C F FlashError Unit := fun d =>
  let (answer, flash) := FlashDevice.activate d.flash
  Task.conclude answer ({ d with flash }.note (.activate answer))

def setState (state : ImageState) : Task C F FlashError Unit := fun d =>
  let (answer, flash) := FlashDevice.setState d.flash state
  Task.conclude answer ({ d with flash }.note (.setState state answer))

def imageState : Task C F ε ImageState := fun d => .ok (FlashDevice.state d.flash) d

end Flash

/-! ## The rest -/

def transferNow : Task C F ε Transfer := fun d => .ok d.transfer d

def setTransfer (transfer : Transfer) : Task C F ε Unit := fun d => .ok () { d with transfer }

def setPhase (phase : Phase) : Task C F ε Unit := fun d =>
  .ok () { d with transfer := { d.transfer with phase } }

def wait (ms : UInt32) : Task C F ε Unit := fun d => .ok () (d.note (.wait ms))

def tell (event : Event) : Task C F ε Unit := fun d => .ok () (d.note (.tell event))

def acknowledge (ack : Ack) : Task C F AckError Unit := fun d =>
  let (answer, uplink) := d.uplink.publish ack
  Task.conclude (answer.map fun _ => ()) ({ d with uplink }.note (.acknowledge ack answer))

/-- Switches a light; a broken pin takes no level. -/
def drive (led : Led) (on : Bool) : Task C F ε Unit := fun d =>
  .ok () (if d.leds.works led then d.note (.drive led on) else d)

def startLeds : Task C F ε Unit := LedBank.startUp.forM fun (led, on) => drive led on

end Device
end Firmware
