import Firmware.Error
import Firmware.Text.Bounded
/-!
# Settings — who the device is, and how it updates itself

`Settings.check` names the first value that is out of its range.  The MQTT topics are made from the device's identity.
-/
namespace Firmware

structure DeviceSettings where
  duid : Bounded 128 := .empty
  cpid : Bounded 64 := .empty
  env : Bounded 32 := .empty
  mqttEndpoint : Bounded 128 := .empty
  telemetryCd : Bounded 16 := .empty
deriving DecidableEq

theorem rxFilePath_fits : "firmware.bin".utf8ByteSize ≤ 64 := by decide

theorem signerCertPath_fits : "ota_signer_pub".utf8ByteSize ≤ 64 := by decide

structure UpdateSettings where
  chunkSize : UInt32 := 4096
  /-- Further tries for a chunk after the first one failed on the network. -/
  maxRetries : UInt32 := 30
  retryBackoffMs : UInt32 := 1000
  progressEveryChunks : UInt32 := 30
  maxImageSize : UInt32 := 4194304
  httpsPort : UInt16 := 443
  connectTimeoutMs : UInt32 := 10000
  postDownloadDelayMs : UInt32 := 500
  ackSettleMs : UInt32 := 1000
  rxFilePath : Bounded 64 := ⟨"firmware.bin", rxFilePath_fits⟩
  signerCertPath : Bounded 64 := ⟨"ota_signer_pub", signerCertPath_fits⟩
  allowDowngrade : Bool := false
deriving DecidableEq

structure Settings where
  device : DeviceSettings := {}
  ota : UpdateSettings := {}
deriving DecidableEq

namespace DeviceSettings

def isProvisioned (d : DeviceSettings) : Bool :=
  !d.duid.isEmpty && !d.cpid.isEmpty && !d.env.isEmpty && !d.mqttEndpoint.isEmpty && !d.telemetryCd.isEmpty

def commandTopic (d : DeviceSettings) : Except DeviceError (Bounded 256) :=
  match Bounded.ofText? 256 ("iot/" ++ d.duid.text ++ "/cmd") with
  | some topic => .ok topic
  | none => .error (.settings "command topic too long")

def ackTopic (d : DeviceSettings) : Except DeviceError (Bounded 256) :=
  match Bounded.ofText? 256 ("$aws/rules/msg_d2c_ack/" ++ d.duid.text ++ "/" ++ d.telemetryCd.text ++ "/2.1/6") with
  | some topic => .ok topic
  | none => .error (.ack .topicTooLong)

end DeviceSettings

def UpdateSettings.fault? (u : UpdateSettings) : Option String :=
  if u.chunkSize < 512 ∨ 16384 < u.chunkSize then some "chunk_size must be 512-16384"
  else if u.maxRetries < 1 ∨ 100 < u.maxRetries then some "max_retries must be 1-100"
  else if 60000 < u.retryBackoffMs then some "retry_backoff_ms must be at most 60000"
  else if u.progressEveryChunks = 0 then some "progress_every_chunks must be non-zero"
  else if u.maxImageSize = 0 ∨ 99999999 < u.maxImageSize then some "max_image_size must be 1-99999999"
  else if u.httpsPort = 0 then some "https_port must be non-zero"
  else if u.connectTimeoutMs = 0 then some "connect_timeout_ms must be non-zero"
  else if u.rxFilePath.isEmpty then some "rx_file_path is empty"
  else none

def Settings.check (s : Settings) : Except SettingsError Unit :=
  match s.ota.fault? with
  | some why => .error (.invalid why)
  | none => .ok ()

end Firmware
