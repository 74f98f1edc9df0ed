import Firmware.Json.Record
import Firmware.Settings.Basic
import Firmware.Text.Decimal
/-!
# Settings in JSON

Settings are written as one compact object, every field in its declared order.  Reading asks for every field, passes
over unknown members and takes arrays of the fields as well.
-/
namespace Firmware

open Json (Value Fields)

/-! ## Writing -/

def Json.written (name value : String) : String := Json.quoted name ++ ":" ++ value

def Json.braced (members : List String) : String := "\x7b" ++ ",".intercalate members ++ "\x7d"

def Json.truth (b : Bool) : String := if b then "true" else "false"

def DeviceSettings.json (d : DeviceSettings) : String :=
  Json.braced
    [Json.written "duid" (Json.quoted d.duid.text),
     Json.written "cpid" (Json.quoted d.cpid.text),
     Json.written "env" (Json.quoted d.env.text),
     Json.written "mqtt_endpoint" (Json.quoted d.mqttEndpoint.text),
     Json.written "telemetry_cd" (Json.quoted d.telemetryCd.text)]

def UpdateSettings.json (u : UpdateSettings) : String :=
  Json.braced
    [Json.written "chunk_size" (Decimal.text u.chunkSize.toNat),
     Json.written "max_retries" (Decimal.text u.maxRetries.toNat),
     Json.written "retry_backoff_ms" (Decimal.text u.retryBackoffMs.toNat),
     Json.written "progress_every_chunks" (Decimal.text u.progressEveryChunks.toNat),
     Json.written "max_image_size" (Decimal.text u.maxImageSize.toNat),
     Json.written "https_port" (Decimal.text u.httpsPort.toNat),
     Json.written "connect_timeout_ms" (Decimal.text u.connectTimeoutMs.toNat),
     Json.written "post_download_delay_ms" (Decimal.text u.postDownloadDelayMs.toNat),
     Json.written "ack_settle_ms" (Decimal.text u.ackSettleMs.toNat),
     Json.written "rx_file_path" (Json.quoted u.rxFilePath.text),
     Json.written "signer_cert_path" (Json.quoted u.signerCertPath.text),
     Json.written "allow_downgrade" (Json.truth u.allowDowngrade)]

def Settings.json (s : Settings) : String :=
  Json.braced [Json.written "device" s.device.json, Json.written "ota" s.ota.json]

/-! ## Reading -/

namespace Json.Fields

def bounded? (fields : Fields) (limit : Nat) (name : String) : Option (Bounded limit) := do
  Bounded.ofText? limit (← (← fields.lookup name).text?)

def natBelow? (fields : Fields) (bound : Nat) (name : String) : Option Nat := do
  (← fields.lookup name).natBelow? bound

def u32? (fields : Fields) (name : String) : Option UInt32 := (natBelow? fields UInt32.size name).map UInt32.ofNat

def u16? (fields : Fields) (name : String) : Option UInt16 := (natBelow? fields UInt16.size name).map UInt16.ofNat

def boolean? (fields : Fields) (name : String) : Option Bool := do (← fields.lookup name).boolean?

end Json.Fields

def DeviceSettings.fieldNames : List String := ["duid", "cpid", "env", "mqtt_endpoint", "telemetry_cd"]

def UpdateSettings.fieldNames : List String :=
  ["chunk_size", "max_retries", "retry_backoff_ms", "progress_every_chunks", "max_image_size", "https_port",
   "connect_timeout_ms", "post_download_delay_ms", "ack_settle_ms", "rx_file_path", "signer_cert_path",
   "allow_downgrade"]

def DeviceSettings.ofJson? (v : Value) : Option DeviceSettings := do
  let fields ← v.fields? fieldNames fieldNames.length
  return {
    duid := ← Json.Fields.bounded? fields 128 "duid"
    cpid := ← Json.Fields.bounded? fields 64 "cpid"
    env := ← Json.Fields.bounded? fields 32 "env"
    mqttEndpoint := ← Json.Fields.bounded? fields 128 "mqtt_endpoint"
    telemetryCd := ← Json.Fields.bounded? fields 16 "telemetry_cd" }

def UpdateSettings.ofJson? (v : Value) : Option UpdateSettings := do
  let fields ← v.fields? fieldNames fieldNames.length
  return {
    chunkSize := ← Json.Fields.u32? fields "chunk_size"
    maxRetries := ← Json.Fields.u32? fields "max_retries"
    retryBackoffMs := ← Json.Fields.u32? fields "retry_backoff_ms"
    progressEveryChunks := ← Json.Fields.u32? fields "progress_every_chunks"
    maxImageSize := ← Json.Fields.u32? fields "max_image_size"
    httpsPort := ← Json.Fields.u16? fields "https_port"
    connectTimeoutMs := ← Json.Fields.u32? fields "connect_timeout_ms"
    postDownloadDelayMs := ← Json.Fields.u32? fields "post_download_delay_ms"
    ackSettleMs := ← Json.Fields.u32? fields "ack_settle_ms"
    rxFilePath := ← Json.Fields.bounded? fields 64 "rx_file_path"
    signerCertPath := ← Json.Fields.bounded? fields 64 "signer_cert_path"
    allowDowngrade := ← Json.Fields.boolean? fields "allow_downgrade" }

def Settings.ofJson? (v : Value) : Option Settings := do
  let fields ← v.fields? ["device", "ota"] 2
  return {
    device := ← DeviceSettings.ofJson? (← fields.lookup "device")
    ota := ← UpdateSettings.ofJson? (← fields.lookup "ota") }

def Settings.parse? (text : String) : Option Settings := do Settings.ofJson? (← Value.parse? (Bytes.ofText text))

end Firmware
