import Firmware.Proofs.Journal
/-!
# Device — one operation at a time

What each operation does to the device, as an equation: those that always end well as the first part of a sequence,
those that may be refused as an attempt.
-/
namespace Firmware.Device

variable {C F ε α : Type}

theorem bind_transferNow (next : Transfer → Task C F ε α) (d : Device C F) :
    (transferNow >>= next) d = next d.transfer d := rfl

theorem bind_setPhase (phase : Phase) (next : Unit → Task C F ε α) (d : Device C F) :
    (setPhase phase >>= next) d = next () { d with transfer := { d.transfer with phase } } := rfl

theorem bind_wait (ms : UInt32) (next : Unit → Task C F ε α) (d : Device C F) :
    (wait ms >>= next) d = next () (d.note (.wait ms)) := rfl

theorem bind_tell (event : Event) (next : Unit → Task C F ε α) (d : Device C F) :
    (tell event >>= next) d = next () (d.note (.tell event)) := rfl

section Source

variable [RangeSource C]

theorem bind_disconnect (next : Unit → Task C F ε α) (d : Device C F) :
    (disconnect >>= next) d =
      next () ({ d with source := RangeSource.disconnect d.source }.note
        (.disconnect (RangeSource.isOpen d.source))) := rfl

theorem bind_fetch (resource : String) (range : ByteRange) (buffer : Bytes) (next : Fetched → Task C F ε α)
    (d : Device C F) :
    (fetch resource range buffer >>= next) d =
      next (RangeSource.fetch d.source resource range buffer).1
        ({ d with source := (RangeSource.fetch d.source resource range buffer).2 }.note
          (.fetch resource range (RangeSource.fetch d.source resource range buffer).1.answer
            (RangeSource.fetch d.source resource range buffer).1.buffer)) := rfl

theorem calls_of_connect {host : String} {d m : Device C F} (h : connect host d = .ok () m) :
    m.calls = d.calls ++ [.connect host (.ok ())] := by
  obtain ⟨hanswer, rfl⟩ := Task.conclude_eq_ok.1 h
  rw [calls_note, hanswer]
  rfl

theorem after_connect (host : String) (d : Device C F) :
    (connect host).after d =
      { d with source := (RangeSource.connect d.source host).2 }.note
        (.connect host (RangeSource.connect d.source host).1) :=
  Task.after_of_conclude rfl

end Source

section Flash

variable [FlashDevice F]

theorem bind_imageState (next : ImageState → Task C F ε α) (d : Device C F) :
    (imageState >>= next) d = next (FlashDevice.state d.flash) d := rfl

theorem attempt_create (file : ReceiveFile) (d : Device C F) :
    (Task.attempt (create file) : Task C F ε _) d =
      .ok (FlashDevice.create d.flash file).1
        ({ d with flash := (FlashDevice.create d.flash file).2 }.note
          (.create file (FlashDevice.create d.flash file).1)) :=
  Task.attempt_of_conclude rfl

theorem attempt_write (offset : UInt32) (block : Bytes) (d : Device C F) :
    (Task.attempt (write offset block) : Task C F ε _) d =
      .ok (FlashDevice.write d.flash offset block).1
        ({ d with flash := (FlashDevice.write d.flash offset block).2 }.note
          (.write offset block (FlashDevice.write d.flash offset block).1)) :=
  Task.attempt_of_conclude rfl

theorem attempt_close (file : ReceiveFile) (d : Device C F) :
    (Task.attempt (close file) : Task C F ε _) d =
      .ok (FlashDevice.close d.flash file).1
        ({ d with flash := (FlashDevice.close d.flash file).2 }.note
          (.close file (FlashDevice.close d.flash file).1)) :=
  Task.attempt_of_conclude rfl

theorem attempt_setState (state : ImageState) (d : Device C F) :
    (Task.attempt (setState state) : Task C F ε _) d =
      .ok (FlashDevice.setState d.flash state).1
        ({ d with flash := (FlashDevice.setState d.flash state).2 }.note
          (.setState state (FlashDevice.setState d.flash state).1)) :=
  Task.attempt_of_conclude rfl

theorem calls_of_activate {d m : Device C F} (h : activate d = .ok () m) :
    m.calls = d.calls ++ [.activate (.ok ())] ∧ (FlashDevice.activate d.flash).1 = .ok () ∧
      m.flash = (FlashDevice.activate d.flash).2 := by
  obtain ⟨hanswer, rfl⟩ := Task.conclude_eq_ok.1 h
  exact ⟨by rw [calls_note, hanswer]; rfl, hanswer, rfl⟩

theorem calls_of_activate_error {d m : Device C F} {e : FlashError} (h : activate d = .error e m) :
    m.calls = d.calls ++ [.activate (.error e)] := by
  obtain ⟨hanswer, rfl⟩ := Task.conclude_eq_error.1 h
  rw [calls_note, hanswer]
  rfl

theorem after_create (file : ReceiveFile) (d : Device C F) :
    (create file).after d =
      { d with flash := (FlashDevice.create d.flash file).2 }.note
        (.create file (FlashDevice.create d.flash file).1) :=
  Task.after_of_conclude rfl

theorem after_write (offset : UInt32) (block : Bytes) (d : Device C F) :
    (write offset block).after d =
      { d with flash := (FlashDevice.write d.flash offset block).2 }.note
        (.write offset block (FlashDevice.write d.flash offset block).1) :=
  Task.after_of_conclude rfl

theorem after_close (file : ReceiveFile) (d : Device C F) :
    (close file).after d =
      { d with flash := (FlashDevice.close d.flash file).2 }.note
        (.close file (FlashDevice.close d.flash file).1) :=
  Task.after_of_conclude rfl

theorem after_activate (d : Device C F) :
    activate.after d =
      { d with flash := (FlashDevice.activate d.flash).2 }.note (.activate (FlashDevice.activate d.flash).1) :=
  Task.after_of_conclude rfl

theorem after_abort (d : Device C F) :
    abort.after d = { d with flash := (FlashDevice.abort d.flash).2 }.note (.abort (FlashDevice.abort d.flash).1) :=
  Task.after_of_conclude rfl

theorem after_setState (state : ImageState) (d : Device C F) :
    (setState state).after d =
      { d with flash := (FlashDevice.setState d.flash state).2 }.note
        (.setState state (FlashDevice.setState d.flash state).1) :=
  Task.after_of_conclude rfl

end Flash

theorem after_acknowledge (ack : Ack) (d : Device C F) :
    (acknowledge ack).after d =
      { d with uplink := (d.uplink.publish ack).2 }.note (.acknowledge ack (d.uplink.publish ack).1) :=
  Task.after_of_conclude rfl

end Firmware.Device
