import Firmware.Proofs.Arrangement
import Firmware.Proofs.Printing
/-!
# Layout — settings are read back however they are laid out

Settings are written as objects within an object.  Read they are in many more layouts: the members of each object in any
order and among others that nobody asks for, or each object as the array of its fields, and all of that with any escapes
and blanks (`Settings.LaidOut`).  Whatever the settings are and however they are laid out, the same settings are read
back (`Settings.every_layout_reads_back`).
-/
namespace Firmware

namespace Json

variable {fields : List (String × (Value → Prop))} {v : Value}

structure Holds (m : Member) (field : String × (Value → Prop)) : Prop where
  name : Content.Spells field.1.toList m.1
  value : field.2 m.2

/-- The layouts of a record: an object whose members hold the fields, in any order and among others, or the array of the
fields in their order. -/
inductive Record (fields : List (String × (Value → Prop))) : Value → Prop where
  | object {ms ms' ms'' : List Member} (held : List.Forall₂ Holds ms fields)
    (padded : Padded (fields.map Prod.fst) ms ms') (order : ms'.Perm ms'') : Record fields (.object ms'')
  | array {items : List Value} (held : List.Forall₂ (fun v field => field.2 v) items fields) :
    Record fields (.array items)

/-! ## The fields of a record are found -/

def Found (found : Fields) (fields : List (String × (Value → Prop))) : Prop :=
  List.Forall₂ (fun f field => f.1 = field.1 ∧ field.2 f.2) found fields

theorem Found.names {found : Fields} (h : Found found fields) : found.map Prod.fst = fields.map Prod.fst := by
  induction h with
  | nil => rfl
  | cons hf _ ih => rw [List.map_cons, List.map_cons, hf.1, ih]

def Fields.Has (found : Fields) (field : String × (Value → Prop)) : Prop :=
  ∃ w, found.lookup field.1 = some w ∧ field.2 w

theorem Found.has {found : Fields} (h : Found found fields) (hn : (fields.map Prod.fst).Nodup) :
    ∀ field ∈ fields, Fields.Has found field := by
  induction h with
  | nil => simp
  | @cons f field found fields hf _ ih =>
    obtain ⟨name, w⟩ := f
    obtain ⟨rfl, hw⟩ := hf
    rw [List.map_cons, List.nodup_cons] at hn
    refine List.forall_mem_cons.2 ⟨⟨w, by simp, hw⟩, fun other hmem => ?_⟩
    have hne : (other.1 == field.1) = false := beq_eq_false_iff_ne.2 fun heq => hn.1 (heq ▸ List.mem_map_of_mem hmem)
    simpa only [Fields.Has, List.lookup_cons, hne] using ih hn.2 other hmem

theorem found_of_held {ms : List Member} (h : List.Forall₂ Holds ms fields) :
    ∃ found, named? ms = some found ∧ Found found fields := by
  induction h with
  | nil => exact ⟨[], rfl, .nil⟩
  | @cons m field ms fields hm _ ih =>
    obtain ⟨found, hnamed, hfound⟩ := ih
    exact ⟨_, named?_cons (Content.text?_of_spells hm.name) hnamed, .cons ⟨rfl, hm.value⟩ hfound⟩

theorem found_of_items {items : List Value} (h : List.Forall₂ (fun v field => field.2 v) items fields) :
    Found ((fields.map Prod.fst).zip items) fields := by
  induction h with
  | nil => exact .nil
  | cons hv _ ih => exact .cons ⟨rfl, hv⟩ ih

/-- **In every layout of a record each field is found by its name.** -/
theorem Record.fields? (h : Record fields v) (hn : (fields.map Prod.fst).Nodup) :
    ∃ found, v.fields? (fields.map Prod.fst) fields.length = some found ∧
      ∀ field ∈ fields, Fields.Has found field := by
  cases h with
  | @object ms ms' ms'' held padded order =>
    obtain ⟨named, hnamed, hfound⟩ := found_of_held held
    obtain ⟨known, hknown, hsame⟩ :=
      Value.fields?_of_named hnamed (hfound.names ▸ hn) (fields.map Prod.fst) fields.length
    have hperm := Value.fields?_perm order (fields.map Prod.fst) fields.length
    rw [← Value.fields?_padded padded fields.length, hknown] at hperm
    generalize (Value.object ms'').fields? (fields.map Prod.fst) fields.length = found at hperm ⊢
    cases hperm with
    | @some _ found hlookup =>
      refine ⟨found, rfl, fun field hmem => ?_⟩
      obtain ⟨w, hw, hfield⟩ := hfound.has hn field hmem
      exact ⟨w, by rw [← hlookup, hsame _ (List.mem_map_of_mem hmem), hw], hfield⟩
  | @array items held =>
    have hlength : items.length = fields.length := held.length_eq
    refine ⟨_, Value.fields?_array_eq_some_iff.2 ⟨⟨hlength.ge, ?_⟩, rfl⟩, (found_of_items held).has hn⟩
    rw [List.length_map, hlength]

/-! ## The plain layout -/

def saying (members : List (String × Document)) : List (String × (Value → Prop)) :=
  members.map fun member => (member.1, member.2.Means)

theorem padded_refl (names : List String) (ms : List Member) : Padded names ms ms := by
  induction ms with
  | nil => exact .nil
  | cons m ms ih => exact .keep m ih

theorem record_of_held {ms : List Member} (h : List.Forall₂ Holds ms fields) : Record fields (.object ms) :=
  .object h (padded_refl _ ms) (.refl ms)

theorem held_of_means {members : List (String × Document)} {ms : List Member} (h : MembersMean members ms) :
    List.Forall₂ Holds ms (saying members) := by
  induction members generalizing ms with
  | nil =>
    cases h
    exact .nil
  | cons member members ih =>
    cases h with
    | cons hk hd h => exact .cons ⟨hk, hd⟩ (ih h)

theorem record_of_means {members : List (String × Document)} (h : (Document.object members).Means v) :
    Record (saying members) v := by
  cases h with
  | object h => exact record_of_held (held_of_means h)

theorem printed_truth (b : Bool) : Printed (truth b) (.boolean b) := by
  refine ⟨.boolean b, .boolean b, ?_⟩
  cases b
  · exact .single .false_
  · exact .single .true_

/-! ## Reading one field -/

namespace Fields

variable {found : Fields} {name : String}

theorem bounded?_of_has {limit : Nat} {t : Bounded limit} (h : Has found (name, (Document.text t.text).Means)) :
    bounded? found limit name = some t := by
  obtain ⟨w, hlookup, hmeans⟩ := h
  cases hmeans with
  | text hspells =>
    simp only [bounded?, hlookup, Option.bind_eq_bind, Option.bind_some, Value.text?, Content.text?_of_spells hspells,
      Bounded.ofText?_text]

theorem natBelow?_of_has {bound n : Nat} (hn : n < bound) (h : Has found (name, (Document.number n).Means)) :
    natBelow? found bound name = some n := by
  obtain ⟨w, hlookup, hmeans⟩ := h
  cases hmeans
  simp only [natBelow?, hlookup, Option.bind_eq_bind, Option.bind_some, Value.natBelow?_text hn]

theorem u32?_of_has {n : UInt32} (h : Has found (name, (Document.number n.toNat).Means)) :
    u32? found name = some n := by
  rw [u32?, natBelow?_of_has n.toNat_lt_size h, Option.map_some, UInt32.ofNat_toNat]

theorem u16?_of_has {n : UInt16} (h : Has found (name, (Document.number n.toNat).Means)) :
    u16? found name = some n := by
  rw [u16?, natBelow?_of_has n.toNat_lt_size h, Option.map_some, UInt16.ofNat_toNat]

theorem boolean?_of_has {b : Bool} (h : Has found (name, (Document.boolean b).Means)) :
    boolean? found name = some b := by
  obtain ⟨w, hlookup, hmeans⟩ := h
  cases hmeans
  simp only [boolean?, hlookup, Option.bind_eq_bind, Option.bind_some, Value.boolean?]

end Fields
end Json

open Json (Document Printed Record Value)

/-! ## Settings -/

def DeviceSettings.members (d : DeviceSettings) : List (String × Document) :=
  [("duid", .text d.duid.text), ("cpid", .text d.cpid.text), ("env", .text d.env.text),
   ("mqtt_endpoint", .text d.mqttEndpoint.text), ("telemetry_cd", .text d.telemetryCd.text)]

def UpdateSettings.members (u : UpdateSettings) : List (String × Document) :=
  [("chunk_size", .number u.chunkSize.toNat), ("max_retries", .number u.maxRetries.toNat),
   ("retry_backoff_ms", .number u.retryBackoffMs.toNat),
   ("progress_every_chunks", .number u.progressEveryChunks.toNat),
   ("max_image_size", .number u.maxImageSize.toNat), ("https_port", .number u.httpsPort.toNat),
   ("connect_timeout_ms", .number u.connectTimeoutMs.toNat),
   ("post_download_delay_ms", .number u.postDownloadDelayMs.toNat), ("ack_settle_ms", .number u.ackSettleMs.toNat),
   ("rx_file_path", .text u.rxFilePath.text), ("signer_cert_path", .text u.signerCertPath.text),
   ("allow_downgrade", .boolean u.allowDowngrade)]

def DeviceSettings.LaidOut (d : DeviceSettings) : Value → Prop := Record (Json.saying d.members)

def UpdateSettings.LaidOut (u : UpdateSettings) : Value → Prop := Record (Json.saying u.members)

/-- The value writes the settings in one of the layouts that are read. -/
def Settings.LaidOut (s : Settings) : Value → Prop := Record [("device", s.device.LaidOut), ("ota", s.ota.LaidOut)]

theorem DeviceSettings.ofJson?_of_laidOut {d : DeviceSettings} {v : Value} (h : d.LaidOut v) :
    DeviceSettings.ofJson? v = some d := by
  obtain ⟨found, hfields, hfound⟩ := h.fields? (by simp [Json.saying, members])
  have hnames : v.fields? fieldNames fieldNames.length = some found := hfields
  simp only [Json.saying, members, List.map_cons, List.map_nil, List.forall_mem_cons] at hfound
  obtain ⟨hduid, hcpid, henv, hendpoint, hcd, -⟩ := hfound
  unfold DeviceSettings.ofJson?
  simp only [hnames, Option.bind_eq_bind, Option.bind_some, Json.Fields.bounded?_of_has hduid,
    Json.Fields.bounded?_of_has hcpid, Json.Fields.bounded?_of_has henv, Json.Fields.bounded?_of_has hendpoint,
    Json.Fields.bounded?_of_has hcd]
  rfl

theorem UpdateSettings.ofJson?_of_laidOut {u : UpdateSettings} {v : Value} (h : u.LaidOut v) :
    UpdateSettings.ofJson? v = some u := by
  obtain ⟨found, hfields, hfound⟩ := h.fields? (by simp [Json.saying, members])
  have hnames : v.fields? fieldNames fieldNames.length = some found := hfields
  simp only [Json.saying, members, List.map_cons, List.map_nil, List.forall_mem_cons] at hfound
  obtain ⟨hchunk, hretries, hbackoff, hprogress, hsize, hport, htimeout, hdelay, hsettle, hfile, hsigner,
    hdowngrade, -⟩ := hfound
  unfold UpdateSettings.ofJson?
  simp only [hnames, Option.bind_eq_bind, Option.bind_some, Json.Fields.u32?_of_has hchunk,
    Json.Fields.u32?_of_has hretries, Json.Fields.u32?_of_has hbackoff, Json.Fields.u32?_of_has hprogress,
    Json.Fields.u32?_of_has hsize, Json.Fields.u16?_of_has hport, Json.Fields.u32?_of_has htimeout,
    Json.Fields.u32?_of_has hdelay, Json.Fields.u32?_of_has hsettle, Json.Fields.bounded?_of_has hfile,
    Json.Fields.bounded?_of_has hsigner, Json.Fields.boolean?_of_has hdowngrade]
  rfl

theorem DeviceSettings.printed_json (d : DeviceSettings) : Printed d.json (.object d.members) :=
  Json.printed_braced <|
    .cons (Json.printedMember _ (Json.printed_text _)) <| .cons (Json.printedMember _ (Json.printed_text _)) <|
    .cons (Json.printedMember _ (Json.printed_text _)) <| .cons (Json.printedMember _ (Json.printed_text _)) <|
    .cons (Json.printedMember _ (Json.printed_text _)) .nil

theorem UpdateSettings.printed_json (u : UpdateSettings) : Printed u.json (.object u.members) :=
  Json.printed_braced <|
    .cons (Json.printedMember _ (Json.printed_number _)) <| .cons (Json.printedMember _ (Json.printed_number _)) <|
    .cons (Json.printedMember _ (Json.printed_number _)) <| .cons (Json.printedMember _ (Json.printed_number _)) <|
    .cons (Json.printedMember _ (Json.printed_number _)) <| .cons (Json.printedMember _ (Json.printed_number _)) <|
    .cons (Json.printedMember _ (Json.printed_number _)) <| .cons (Json.printedMember _ (Json.printed_number _)) <|
    .cons (Json.printedMember _ (Json.printed_number _)) <| .cons (Json.printedMember _ (Json.printed_text _)) <|
    .cons (Json.printedMember _ (Json.printed_text _)) <| .cons (Json.printedMember _ (Json.printed_truth _)) .nil

namespace Settings

variable {s : Settings} {v : Value}

theorem ofJson?_of_laidOut (h : s.LaidOut v) : Settings.ofJson? v = some s := by
  obtain ⟨found, hfields, hfound⟩ := h.fields? (by simp)
  have hnames : v.fields? ["device", "ota"] 2 = some found := hfields
  simp only [List.forall_mem_cons] at hfound
  obtain ⟨⟨vd, hdevice, hd⟩, ⟨vu, hota, hu⟩, -⟩ := hfound
  unfold Settings.ofJson?
  simp only [hnames, hdevice, hota, Option.bind_eq_bind, Option.bind_some,
    DeviceSettings.ofJson?_of_laidOut hd, UpdateSettings.ofJson?_of_laidOut hu]
  rfl

theorem laidOut_json (s : Settings) : ∃ v, s.LaidOut v ∧ Json.Written v.tokens (Bytes.ofText s.json) := by
  have hprinted : Printed s.json (.object [("device", .object s.device.members), ("ota", .object s.ota.members)]) :=
    Json.printed_braced (.cons (Json.printedMember _ s.device.printed_json)
      (.cons (Json.printedMember _ s.ota.printed_json) .nil))
  obtain ⟨v, hmeans, hwritten⟩ := hprinted.writes
  refine ⟨v, ?_, hwritten⟩
  cases hmeans with
  | object hmembers =>
    refine Json.record_of_held ?_
    cases hmembers with
    | cons hdevice hd hmembers =>
      cases hmembers with
      | cons hota hu hmembers =>
        cases hmembers
        exact .cons ⟨hdevice, Json.record_of_means hd⟩ (.cons ⟨hota, Json.record_of_means hu⟩ .nil)

theorem parse?_of_laidOut {text : String} (h : s.LaidOut v) (hwritten : Json.Written v.tokens (Bytes.ofText text)) :
    Settings.parse? text = some s := by
  unfold Settings.parse?
  rw [Value.parse?_of_written hwritten, Option.bind_eq_bind, Option.bind_some]
  exact ofJson?_of_laidOut h

/-- **Settings are read back**, whatever they are: from the text that is written, and from every text that writes them
in another layout. -/
theorem every_layout_reads_back (s : Settings) :
    Settings.parse? s.json = some s ∧
      ∀ (v : Value) (text : String), s.LaidOut v → Json.Written v.tokens (Bytes.ofText text) →
        Settings.parse? text = some s := by
  obtain ⟨v, hlaid, hwritten⟩ := laidOut_json s
  exact ⟨parse?_of_laidOut hlaid hwritten, fun _ _ h hw => parse?_of_laidOut h hw⟩

theorem accented_fits : "é".utf8ByteSize ≤ 128 := by decide

def accented : Settings where
  device := { duid := ⟨"é", accented_fits⟩ }

/-- The settings with the update before the device, a member between them, and the device as an array with an escape. -/
def rearranged : String :=
  "\x7b\"ota\":" ++ accented.ota.json ++ ",\"v\":[], \"device\":[\"\\u00e9\",\"\",\"\",\"\",\"\"]\x7d"

theorem rearranged_reads_back : Settings.parse? rearranged = some accented := by
  let key (name : String) : Json.Content := (Bytes.ofText name).map .octet
  have hkey : ∀ name : String, Json.Content.Spells name.toList (key name) := Json.Content.spells_ofText
  obtain ⟨vu, hmeans, hcompact⟩ := accented.ota.printed_json
  let items : List Value := [.string [.unit 0xE9], .string [], .string [], .string [], .string []]
  let members : List Json.Member := [(key "ota", vu), (key "v", .array []), (key "device", .array items)]
  have hdevice : accented.device.LaidOut (.array items) :=
    .array <| .cons (.text (.escaped .nil)) <| .cons (.text .nil) <| .cons (.text .nil) <| .cons (.text .nil) <|
      .cons (.text .nil) .nil
  have hheld : List.Forall₂ Json.Holds [(key "device", .array items), (key "ota", vu)]
      [("device", accented.device.LaidOut), ("ota", accented.ota.LaidOut)] :=
    .cons ⟨hkey "device", hdevice⟩ (.cons ⟨hkey "ota", Json.record_of_means hmeans⟩ .nil)
  have hlaid : accented.LaidOut (.object members) :=
    .object hheld (.keep _ (.insert _ (Json.Content.text?_of_spells (hkey "v")) (by decide) (.keep _ .nil)))
      (List.reverse_perm members)
  have hempty : (Json.Token.string []).Writes [0x22, 0x22] := .string .nil
  have hescaped : (Json.Token.string [.unit 0xE9]).Writes (Bytes.ofText "\"\\u00e9\"") :=
    .string (.cons (.unit ['0', '0', 'e', '9'] (by decide)) .nil)
  have hwritten := Json.Written.token .openObject <|
    .token (Json.Token.writes_octets (Bytes.ofText "ota") (by decide +kernel)) <| .token .colon <|
    hcompact.written_append <| .token .comma <|
    .token (Json.Token.writes_octets (Bytes.ofText "v") (by decide +kernel)) <| .token .colon <|
    .token .openArray <| .token .closeArray <| .token .comma <| .blank (b := 0x20) rfl <|
    .token (Json.Token.writes_octets (Bytes.ofText "device") (by decide +kernel)) <| .token .colon <|
    .token .openArray <| .token hescaped <| .token .comma <| .token hempty <| .token .comma <|
    .token hempty <| .token .comma <| .token hempty <| .token .comma <| .token hempty <|
    .token .closeArray <| .token .closeObject <| Json.Compact.nil.written
  refine (every_layout_reads_back accented).2 _ _ hlaid ?_
  unfold rearranged
  rw [Bytes.ofText_append, Bytes.ofText_append, List.append_assoc]
  exact hwritten

end Settings
end Firmware
