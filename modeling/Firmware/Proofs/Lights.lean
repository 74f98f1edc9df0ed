import Firmware.Flash.Faulty
import Firmware.Proofs.Digest
import Firmware.Proofs.Journal
import Firmware.Proofs.Scanning
import Firmware.Source.Rehearsed
/-!
# Lights — the lights follow the commands

A command switches a light if its first word names the light and its second one is "on" or "off", in letters of either
case.  Whatever else is handled, and however it ends, the pins take the levels that such commands order, each once and
in their order; before them both lights are switched off.  `lights_follow_commands` is the main statement.
-/
open Firmware.Task (Keeps keeps_bind keeps_conclude)

namespace Firmware

/-! ## The words of a command -/

def Led.word : Led → List Char
  | .red => "led-red".toList
  | .green => "led-green".toList

theorem Led.word_inj {led which : Led} (h : led.word = which.word) : led = which := by
  cases led <;> cases which <;> first | rfl | exact absurd h (by decide)

def switchWord (on : Bool) : List Char := (if on then "on" else "off").toList

namespace Command

variable {led which : Led} {on : Bool} {cs name arg : List Char} {args more : List (List Char)}

/-- The first word names the light and the second one says how to switch it, ASCII letters counting in either case; what
follows is left alone. -/
def Orders (led : Led) (on : Bool) (text : List Char) : Prop :=
  ∃ name rest arg more, Scan.FirstWord text name rest ∧ Scan.FirstWord rest arg more ∧
    name.map Char.toLower = led.word ∧ arg.map Char.toLower = switchWord on

theorem ofArgument_cons_eq_led_iff :
    ofArgument which (arg :: more) = .led led on ↔ which = led ∧ arg.map Char.toLower = switchWord on := by
  have hne : switchWord true ≠ switchWord false := by decide
  have hon : Scan.sameName arg "on".toList = true ↔ arg.map Char.toLower = switchWord true :=
    Scan.sameName_iff (by decide)
  have hoff : Scan.sameName arg "off".toList = true ↔ arg.map Char.toLower = switchWord false :=
    Scan.sameName_iff (by decide)
  simp only [ofArgument, hon, hoff]
  by_cases h : arg.map Char.toLower = switchWord true
  · rw [if_pos h, h]
    cases on <;> simp [hne]
  rw [if_neg h]
  by_cases h' : arg.map Char.toLower = switchWord false
  · rw [if_pos h', h']
    cases on <;> simp [hne.symm]
  · rw [if_neg h']
    cases on <;> simp [h, h']

theorem ofWords_cons_eq_led_iff :
    ofWords (name :: args) = .led led on ↔ name.map Char.toLower = led.word ∧ ofArgument led args = .led led on := by
  have hping : Scan.sameName name "ping".toList = true ↔ name.map Char.toLower = "ping".toList :=
    Scan.sameName_iff (by decide)
  have hred : Scan.sameName name "led-red".toList = true ↔ name.map Char.toLower = Led.red.word :=
    Scan.sameName_iff (by decide)
  have hgreen : Scan.sameName name "led-green".toList = true ↔ name.map Char.toLower = Led.green.word :=
    Scan.sameName_iff (by decide)
  have hkind : "ping".toList ≠ led.word := by cases led <;> decide
  -- a command with the name of a light switches that light or none
  have hnamed (which : Led) : ofArgument which args = .led led on ↔
      which.word = led.word ∧ ofArgument led args = .led led on := by
    constructor
    · intro horder
      cases args with
      | nil => cases horder
      | cons arg more =>
        obtain ⟨rfl, -⟩ := ofArgument_cons_eq_led_iff.1 horder
        exact ⟨rfl, horder⟩
    · rintro ⟨hword, horder⟩
      obtain rfl := Led.word_inj hword
      exact horder
  simp only [ofWords, hping, hred, hgreen]
  generalize name.map Char.toLower = word
  by_cases h : word = "ping".toList
  · rw [if_pos h, h]
    exact iff_of_false nofun fun hword => hkind hword.1
  rw [if_neg h]
  by_cases h' : word = Led.red.word
  · rw [if_pos h', h']
    exact hnamed .red
  rw [if_neg h']
  by_cases h'' : word = Led.green.word
  · rw [if_pos h'', h'']
    exact hnamed .green
  · rw [if_neg h'']
    refine iff_of_false nofun fun hword => ?_
    cases led with
    | red => exact h' hword.1
    | green => exact h'' hword.1

/-- **Which commands switch a light**, read off their texts. -/
theorem ofText_eq_led_iff {text : String} : ofText text = .led led on ↔ Orders led on text.toList := by
  unfold ofText
  constructor
  · intro h
    cases hwords : Scan.words text.toList with
    | nil =>
      rw [hwords] at h
      cases h
    | cons name args =>
      rw [hwords, ofWords_cons_eq_led_iff] at h
      obtain ⟨hname, horder⟩ := h
      cases args with
      | nil => cases horder
      | cons arg more =>
        obtain ⟨-, harg⟩ := ofArgument_cons_eq_led_iff.1 horder
        obtain ⟨rest, hfirst, hrest⟩ := Scan.words_eq_cons_iff.1 hwords
        obtain ⟨after, hsecond, -⟩ := Scan.words_eq_cons_iff.1 hrest
        exact ⟨name, rest, arg, after, hfirst, hsecond, hname, harg⟩
  · rintro ⟨name, rest, arg, after, hfirst, hsecond, hname, harg⟩
    rw [hfirst.words_eq, hsecond.words_eq, ofWords_cons_eq_led_iff]
    exact ⟨hname, ofArgument_cons_eq_led_iff.2 ⟨rfl, harg⟩⟩

theorem orders_iff_words : Orders led on cs ↔
    ∃ more, (Scan.words cs).map (List.map Char.toLower) = led.word :: switchWord on :: more := by
  constructor
  · rintro ⟨name, rest, arg, after, hfirst, hsecond, hname, harg⟩
    rw [hfirst.words_eq, hsecond.words_eq, List.map_cons, List.map_cons, hname, harg]
    exact ⟨_, rfl⟩
  · rintro ⟨more, hwords⟩
    obtain ⟨name, args, hcs, hname, hargs⟩ := List.map_eq_cons_iff.1 hwords
    obtain ⟨arg, others, rfl, harg, -⟩ := List.map_eq_cons_iff.1 hargs
    obtain ⟨rest, hfirst, hrest⟩ := Scan.words_eq_cons_iff.1 hcs
    obtain ⟨after, hsecond, -⟩ := Scan.words_eq_cons_iff.1 hrest
    exact ⟨name, rest, arg, after, hfirst, hsecond, hname, harg⟩

def ordered? : Command → Option (Led × Bool)
  | .led led on => some (led, on)
  | .ping | .invalid _ | .unknown => none

theorem ordered?_eq_some_iff {command : Command} : command.ordered? = some (led, on) ↔ command = .led led on := by
  cases command <;> simp [ordered?]

end Command

/-! ## The payloads that switch a light -/

namespace Inbound

variable {payload payload' : Bytes} {text : Bounded 128} {command : Command} {id : Option AckId} {e : Envelope}
  {led : Led} {on : Bool}

def IsCommand (payload : Bytes) (text : Bounded 128) : Prop :=
  ∃ e id, Envelope.parse? payload = some e ∧ e.ct = some 0 ∧ e.Asks id ∧ e.cmd = some text.text

def Switches (payload : Bytes) (led : Led) (on : Bool) : Prop :=
  ∃ text, IsCommand payload text ∧ Command.Orders led on text.text.toList

/-- What a payload asks of the lights: nothing, unless it is a command. -/
def ordered? (payload : Bytes) : Option (Led × Bool) :=
  match parse payload with
  | .ok (.command command _ _) => command.ordered?
  | .ok (.offer _) | .ok (.malformed ..) | .ok (.other _) | .error _ => none

/-- Two commands with the same words, up to the case of ASCII letters. -/
def Restated (payload payload' : Bytes) : Prop :=
  ∃ text text', IsCommand payload text ∧ IsCommand payload' text' ∧
    (Scan.words text.text.toList).map (List.map Char.toLower) =
      (Scan.words text'.text.toList).map (List.map Char.toLower)

theorem Envelope.command_eq_ok_iff :
    e.command = .ok (command, text) ↔ e.cmd = some text.text ∧ command = Command.ofText text.text := by
  unfold Envelope.command
  simp only [bind_eq_ok_iff, require_eq_ok_iff, fit_eq_ok_iff]
  constructor
  · rintro ⟨_, hcmd, t, rfl, h⟩
    cases h
    exact ⟨hcmd, rfl⟩
  · rintro ⟨hcmd, rfl⟩
    exact ⟨_, hcmd, text, rfl, rfl⟩

theorem ofEnvelope_eq_command_iff : ofEnvelope e = .ok (.command command text id) ↔
    e.ct = some 0 ∧ e.ackId = .ok id ∧ e.command = .ok (command, text) := by
  have hcommand : ∀ id', settle .command id' (e.command.map fun parts => .command parts.1 parts.2 id') =
      .ok (.command command text id) ↔ id' = id ∧ e.command = .ok (command, text) := fun id' => by
    rw [settle_eq_ok_iff (by simp)]
    cases e.command with
    | error why => simp [Except.map]
    | ok parts =>
      constructor
      · intro h
        cases h
        exact ⟨rfl, rfl⟩
      · rintro ⟨rfl, h⟩
        cases h
        rfl
  unfold ofEnvelope
  simp only [bind_eq_ok_iff, require_eq_ok_iff]
  constructor
  · rintro ⟨type, hct, id', hid, h⟩
    split at h
    · rename_i htype
      obtain ⟨rfl, hparts⟩ := (hcommand id').1 h
      exact ⟨htype ▸ hct, hid, hparts⟩
    split at h
    · rw [settle_eq_ok_iff (by simp)] at h
      cases hoffer : e.offer id' <;> simp [hoffer, Except.map] at h
    · cases h
  · rintro ⟨hct, hid, hparts⟩
    exact ⟨0, hct, id, hid, (hcommand id).2 ⟨rfl, hparts⟩⟩

/-- **A payload is decoded to a command** if its envelope says so, and the command is the one that its text spells. -/
theorem parse_eq_command_iff : parse payload = .ok (.command command text id) ↔
    (∃ e, Envelope.parse? payload = some e ∧ e.ct = some 0 ∧ e.Asks id ∧ e.cmd = some text.text) ∧
      command = Command.ofText text.text := by
  have hparse : parse payload = .ok (.command command text id) ↔
      ∃ e, Envelope.parse? payload = some e ∧ ofEnvelope e = .ok (.command command text id) := by
    unfold parse
    cases Envelope.parse? payload <;> simp
  simp only [hparse, ofEnvelope_eq_command_iff, Envelope.ackId_eq_ok_iff, Envelope.command_eq_ok_iff]
  constructor
  · rintro ⟨e, he, hct, hid, hcmd, hcommand⟩
    exact ⟨⟨e, he, hct, hid, hcmd⟩, hcommand⟩
  · rintro ⟨⟨e, he, hct, hid, hcmd⟩, hcommand⟩
    exact ⟨e, he, hct, hid, hcmd, hcommand⟩

theorem isCommand_iff :
    IsCommand payload text ↔ ∃ id, parse payload = .ok (.command (Command.ofText text.text) text id) := by
  simp only [parse_eq_command_iff, and_true]
  exact ⟨fun ⟨e, id, h⟩ => ⟨id, e, h⟩, fun ⟨id, e, h⟩ => ⟨e, id, h⟩⟩

theorem ordered?_of_command (h : IsCommand payload text) :
    ordered? payload = (Command.ofText text.text).ordered? := by
  obtain ⟨id, hparse⟩ := isCommand_iff.1 h
  rw [ordered?, hparse]

theorem ordered?_eq_none (h : ∀ text, ¬ IsCommand payload text) : ordered? payload = none := by
  unfold ordered?
  split
  · rename_i command text id hparse
    obtain ⟨⟨e, he⟩, -⟩ := parse_eq_command_iff.1 hparse
    exact absurd ⟨e, id, he⟩ (h text)
  all_goals rfl

/-- **A payload asks for a light to be switched** exactly if it is a command whose first two words do. -/
theorem ordered?_eq_some_iff : ordered? payload = some (led, on) ↔ Switches payload led on := by
  constructor
  · intro h
    by_cases hcommand : ∃ text, IsCommand payload text
    · obtain ⟨text, hcommand⟩ := hcommand
      rw [ordered?_of_command hcommand, Command.ordered?_eq_some_iff, Command.ofText_eq_led_iff] at h
      exact ⟨text, hcommand, h⟩
    · rw [ordered?_eq_none (not_exists.1 hcommand)] at h
      cases h
  · rintro ⟨text, hcommand, horders⟩
    rw [ordered?_of_command hcommand, Command.ordered?_eq_some_iff, Command.ofText_eq_led_iff]
    exact horders

/-- **Spacing and case make no difference.** -/
theorem ordered?_of_restated (h : Restated payload payload') : ordered? payload = ordered? payload' := by
  obtain ⟨text, text', hcommand, hcommand', hwords⟩ := h
  rw [ordered?_of_command hcommand, ordered?_of_command hcommand']
  refine Option.ext fun ⟨led, on⟩ => ?_
  rw [Command.ordered?_eq_some_iff, Command.ordered?_eq_some_iff,
    Command.ofText_eq_led_iff, Command.ofText_eq_led_iff, Command.orders_iff_words, Command.orders_iff_words, hwords]

end Inbound

/-! ## The pins -/

def Call.driven? : Call → Option (Led × Bool)
  | .drive led on => some (led, on)
  | .connect .. | .disconnect _ | .fetch .. | .create .. | .write .. | .close .. | .abort _ | .activate _ | .setState ..
  | .wait _ | .acknowledge .. | .tell _ => none

theorem Call.driven?_of_isOutward {call : Call} (h : call.isOutward = true) : call.driven? = none := by
  cases call <;> first | rfl | cases h

theorem Call.driven?_of_isInward {call : Call} (h : call.isInward = true) : call.driven? = none := by
  cases call <;> first | rfl | cases h

def lastLevel? (led : Led) (moves : List (Led × Bool)) : Option Bool :=
  ((moves.filter (·.1 = led)).getLast?).map (·.2)

section LastLevel

variable {led : Led} {on : Bool} {before moves : List (Led × Bool)}

theorem lastLevel?_append : lastLevel? led (before ++ moves) = (lastLevel? led moves).or (lastLevel? led before) := by
  rw [lastLevel?, List.filter_append, List.getLast?_append, Option.map_or]
  rfl

theorem lastLevel?_eq_none (h : ∀ on, (led, on) ∉ moves) : lastLevel? led moves = none := by
  have hfilter : moves.filter (·.1 = led) = [] := List.filter_eq_nil_iff.2 fun move hmove hled => by
    have hled : move.1 = led := by simpa using hled
    subst hled
    exact h move.2 hmove
  rw [lastLevel?, hfilter]
  rfl

theorem lastLevel?_of_last {later : List (Led × Bool)} (h : ∀ on, (led, on) ∉ later) :
    lastLevel? led (before ++ (led, on) :: later) = some on := by
  have hsplit : before ++ (led, on) :: later = before ++ [(led, on)] ++ later := by simp
  have hone : lastLevel? led [(led, on)] = some on := by simp [lastLevel?]
  rw [hsplit, lastLevel?_append, lastLevel?_eq_none h, lastLevel?_append, hone]
  rfl

theorem lastLevel?_filter {works : Led → Bool} (h : works led = true) :
    lastLevel? led (moves.filter fun move => works move.1) = lastLevel? led moves := by
  have hfilter : (moves.filter fun move => works move.1).filter (·.1 = led) = moves.filter (·.1 = led) := by
    rw [List.filter_filter]
    refine List.filter_congr fun move _ => ?_
    by_cases hled : move.1 = led
    · simp [hled, h]
    · simp [hled]
  rw [lastLevel?, hfilter]
  rfl

end LastLevel

namespace Device

variable {C F ε : Type} {d m m' : Device C F} {moves moves' : List (Led × Bool)}

def driven (d : Device C F) : List (Led × Bool) := d.calls.filterMap Call.driven?

/-- The level that the pin of a light is at, if it ever took one. -/
def level? (d : Device C F) (led : Led) : Option Bool := lastLevel? led d.driven

/-- From `d` to `m` the pins were given these levels, in this order; a broken pin took none. -/
structure Moved (d : Device C F) (moves : List (Led × Bool)) (m : Device C F) : Prop where
  driven : m.driven = d.driven ++ moves.filter fun move => d.leds.works move.1
  leds : m.leds = d.leds

theorem Moved.refl (d : Device C F) : Moved d [] d := ⟨(List.append_nil _).symm, rfl⟩

theorem Moved.trans (h : Moved d moves m) (h' : Moved m moves' m') : Moved d (moves ++ moves') m' where
  driven := by rw [h'.driven, h.driven, h.leds, List.filter_append, List.append_assoc]
  leds := h'.leds.trans h.leds

theorem driven_of_journal {call : Call} (h : m'.journal = call :: m.journal) :
    m'.driven = m.driven ++ call.driven?.toList := by
  rw [driven, calls_of_journal h, List.filterMap_append]
  rfl

theorem Moved.quiet {call : Call} (h : Moved d moves m) (hj : m'.journal = call :: m.journal)
    (hcall : call.driven? = none) (hleds : m'.leds = m.leds) : Moved d moves m' where
  driven := by rw [driven_of_journal hj, hcall, h.driven, Option.toList_none, List.append_nil]
  leds := hleds.trans h.leds

theorem Moved.level?_eq {led : Led} {on : Bool} (h : Moved d moves m) (hworks : d.leds.works led = true)
    (hlast : lastLevel? led moves = some on) : m.level? led = some on := by
  rw [level?, h.driven, lastLevel?_append, lastLevel?_filter hworks, hlast]
  rfl

theorem drive_apply (led : Led) (on : Bool) (d : Device C F) :
    ∃ m, (drive led on : Task C F ε Unit) d = .ok () m ∧ Moved d [(led, on)] m := by
  refine ⟨_, rfl, ?_, ?_⟩
  · by_cases hworks : d.leds.works led = true
    · rw [if_pos hworks, driven_of_journal rfl]
      simp [Call.driven?, hworks]
    · rw [if_neg hworks]
      simp [hworks]
  · split <;> rfl

theorem startLeds_apply (d : Device C F) :
    ∃ m, (startLeds : Task C F ε Unit) d = .ok () m ∧ Moved d LedBank.startUp m := by
  obtain ⟨red, hred, hmoved⟩ := drive_apply (ε := ε) .red false d
  obtain ⟨green, hgreen, hmoved'⟩ := drive_apply (ε := ε) .green false red
  refine ⟨green, ?_, hmoved.trans hmoved'⟩
  exact (Task.bind_of_ok hred).trans ((Task.bind_of_ok hgreen).trans rfl)

end Device

/-! ## What it is to follow the payloads -/

namespace Service

open Device

section Follow

variable {C F : Type} {led : Led} {payloads : List Bytes} {d m : Device C F}

/-- From `d` to `m` the lights were switched off and then followed the payloads. -/
structure LightsFollow (d : Device C F) (payloads : List Bytes) (m : Device C F) : Prop where
  driven : m.driven =
    d.driven ++ (LedBank.startUp ++ payloads.filterMap Inbound.ordered?).filter fun move => d.leds.works move.1
  /-- The last payload that switches a light tells the level that its pin stays at. -/
  last : ∀ led on before payload later, d.leds.works led = true → payloads = before ++ payload :: later →
    Inbound.Switches payload led on → (∀ next ∈ later, ∀ on, ¬ Inbound.Switches next led on) → m.level? led = some on
  off : ∀ led, d.leds.works led = true → (∀ payload ∈ payloads, ∀ on, ¬ Inbound.Switches payload led on) →
    m.level? led = some false

theorem not_mem_ordered (h : ∀ payload ∈ payloads, ∀ on, ¬ Inbound.Switches payload led on) (on : Bool) :
    (led, on) ∉ payloads.filterMap Inbound.ordered? := fun hmem => by
  obtain ⟨payload, hpayload, hordered⟩ := List.mem_filterMap.1 hmem
  exact h payload hpayload on (Inbound.ordered?_eq_some_iff.1 hordered)

theorem lightsFollow_of_moved (h : Moved d (LedBank.startUp ++ payloads.filterMap Inbound.ordered?) m) :
    LightsFollow d payloads m where
  driven := h.driven
  last led on before payload later hworks hpayloads hswitches hlater := by
    refine h.level?_eq hworks ?_
    rw [hpayloads, List.filterMap_append, List.filterMap_cons_some (Inbound.ordered?_eq_some_iff.2 hswitches),
      ← List.append_assoc]
    exact lastLevel?_of_last (not_mem_ordered hlater)
  off led hworks hnone := by
    have hstart : lastLevel? led LedBank.startUp = some false := by cases led <;> decide
    refine h.level?_eq hworks ?_
    rw [lastLevel?_append, lastLevel?_eq_none (not_mem_ordered hnone), hstart]
    rfl

end Follow

/-! ## Steps and runs -/

variable {C F ε : Type}

theorem follow_apply (command : Command) (d : Device C F) :
    ∃ a m, follow command d = .ok a m ∧ Moved d command.ordered?.toList m := by
  cases command with
  | led led on =>
    obtain ⟨m, hdrive, hmoved⟩ := drive_apply led on d
    exact ⟨_, m, Task.bind_of_ok hdrive, hmoved⟩
  | ping | invalid | unknown => exact ⟨_, d, rfl, .refl d⟩

variable [RangeSource C] [FlashDevice F]

theorem answering_moved (d : Device C F) (moves : List (Led × Bool)) : Answering (Moved d moves) := by
  have hout : KeptOutward (Moved d moves) := fun _ _ _ hcall hm =>
    hm.quiet rfl (Call.driven?_of_isOutward hcall) rfl
  have hin : KeptInward (Moved d moves) :=
    .of_note (fun _ _ hm => ⟨hm.driven, hm.leds⟩) fun _ _ _ hcall hm =>
      hm.quiet rfl (Call.driven?_of_isInward hcall) rfl
  exact .of_parts hout (fun _ _ hm => hm.quiet rfl rfl rfl) (Update.keeps_download (.of_inward hout hin))
    (Transfer.keeps_abandon hin) fun _ hm => keeps_conclude _ _ (hm.quiet rfl rfl rfl)

theorem moved_handleCommand (command : Command) (id : Option AckId) (d : Device C F) :
    Moved d command.ordered?.toList ((handleCommand command id).after d) := by
  obtain ⟨a, m, hfollow, hmoved⟩ := follow_apply command d
  have hkeep := answering_moved d command.ordered?.toList
  unfold handleCommand
  rw [Task.after_bind_of_ok hfollow]
  exact keeps_bind (hkeep.tell _) (fun _ => keeps_answer hkeep _ _ _ _) m hmoved

/-- **A step**: a payload moves the pin that it asks for, and no other, however its handling ends. -/
theorem moved_handle (s : Service) (payload : Bytes) (d : Device C F) :
    Moved d (Inbound.ordered? payload).toList ((s.handle payload).after d) := by
  have hkeep := answering_moved d []
  unfold handle Inbound.ordered?
  cases Inbound.parse payload with
  | error e => exact .refl d
  | ok message =>
    cases message with
    | command command text id => exact moved_handleCommand command id d
    | offer | malformed | other => exact keeps_act hkeep s (by simp) d (.refl d)

/-- **A run**: the payloads move the pins one after the other. -/
theorem handleAll_apply (s : Service) (payloads : List Bytes) (d : Device C F) :
    ∃ answers m, (s.handleAll payloads : Task C F ε _) d = .ok answers m ∧ answers.length = payloads.length ∧
      Moved d (payloads.filterMap Inbound.ordered?) m := by
  unfold handleAll
  induction payloads generalizing d with
  | nil => exact ⟨[], d, rfl, rfl, .refl d⟩
  | cons payload payloads ih =>
    obtain ⟨answers, m, hrest, hlength, hmoved⟩ := ih ((s.handle payload).after d)
    refine ⟨(s.handle payload).result d :: answers, m, ?_, congrArg (· + 1) hlength, ?_⟩
    · rw [List.mapM_cons, Task.bind_of_ok (Task.attempt_apply _ _), Task.bind_of_ok hrest, Task.pure_apply]
    · change Moved d (([payload] ++ payloads).filterMap Inbound.ordered?) m
      rw [List.filterMap_append]
      exact (moved_handle s payload d).trans hmoved

def runLit (s : Service) (payloads : List Bytes) : Task C F ε (List (Except DeviceError Unit)) := do
  startLeds
  s.handleAll payloads

/-- **The lights follow the commands.**  Whatever the source, the flash device and the uplink answer, every payload is
handled; a payload moves the one pin that its first two words ask for, and none if it is no such command, or no command
at all; spacing and the case of letters make no difference. -/
theorem lights_follow_commands (s : Service) (payloads : List Bytes) (d : Device C F) :
    (∃ answers m, (s.runLit payloads : Task C F ε _) d = .ok answers m ∧ answers.length = payloads.length ∧
      LightsFollow d payloads m) ∧
    (∀ payload led on, Inbound.ordered? payload = some (led, on) ↔ Inbound.Switches payload led on) ∧
    (∀ payload, (∀ text, ¬ Inbound.IsCommand payload text) → Inbound.ordered? payload = none) ∧
    ∀ payload payload', Inbound.Restated payload payload' → Inbound.ordered? payload = Inbound.ordered? payload' := by
  obtain ⟨lit, hstart, hmoved⟩ := startLeds_apply (ε := ε) d
  obtain ⟨answers, m, hrun, hlength, hmoved'⟩ := handleAll_apply (ε := ε) s payloads lit
  exact ⟨⟨answers, m, (Task.bind_of_ok hstart).trans hrun, hlength, lightsFollow_of_moved (hmoved.trans hmoved')⟩,
    fun _ _ _ => Inbound.ordered?_eq_some_iff, fun _ => Inbound.ordered?_eq_none,
    fun _ _ => Inbound.ordered?_of_restated⟩

def wideRequest : Bytes := Bytes.ofText "\x7b\"ct\":0,\"ack\":\"a\",\"cmd\":\" LED-RED\u2003On\u3000right now\"\x7d"

def unheard : Device RehearsedSource FaultyPartition where
  source := {}
  flash := { partition := {} }
  uplink := { topic := .empty, failures := [some .publish] }

theorem unheard_lights_follow :
    ∃ answers m, (({} : Service).runLit [wideRequest, Bytes.ofText "\x7b", Bytes.ofText "\x7b\"ct\":1\x7d"] :
      Task RehearsedSource FaultyPartition Empty _) unheard = .ok answers m ∧
      m.driven = [(.red, false), (.green, false), (.red, true)] ∧ m.level? .red = some true ∧
      m.level? .green = some false := by
  have hwide : Inbound.ordered? wideRequest = some (.red, true) := by decide +kernel
  have htorn : Inbound.ordered? (Bytes.ofText "\x7b") = none := by decide +kernel
  have hbare : Inbound.ordered? (Bytes.ofText "\x7b\"ct\":1\x7d") = none := by decide +kernel
  obtain ⟨⟨answers, m, hrun, -, hfollow⟩, hasked, -⟩ := lights_follow_commands (ε := Empty) {}
    [wideRequest, Bytes.ofText "\x7b", Bytes.ofText "\x7b\"ct\":1\x7d"] unheard
  have hordered : [wideRequest, Bytes.ofText "\x7b", Bytes.ofText "\x7b\"ct\":1\x7d"].filterMap Inbound.ordered? =
      [(.red, true)] := by simp [hwide, htorn, hbare]
  refine ⟨answers, m, hrun, ?_, ?_, ?_⟩
  · rw [hfollow.driven, hordered]
    rfl
  · exact hfollow.last .red true [] wideRequest _ rfl rfl ((hasked ..).1 hwide) (by simp [← hasked, htorn, hbare])
  · exact hfollow.off .green rfl (by simp [← hasked, hwide, htorn, hbare])

end Service
end Firmware
