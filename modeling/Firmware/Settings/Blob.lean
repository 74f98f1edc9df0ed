import Firmware.Settings.Basic
/-!
# Blob — settings in the form they are stored

A blob is the fields one after the other, without names: whole numbers in groups of seven bits, least group first, the
top bit of an octet telling that another follows; texts behind their length; truth values as one octet.  Reading takes
what it needs from the front and leaves the rest.
-/
namespace Firmware.Blob

/-! ## Writing -/

/-- A number in groups of seven bits, in at most `groups` octets. -/
def number : (groups : Nat) → Nat → Bytes
  | 0, _ => []
  | groups + 1, n => if n < 128 then [UInt8.ofNat n] else UInt8.ofNat (n % 128 + 128) :: number groups (n / 128)

def text (s : String) : Bytes := number 10 s.utf8ByteSize ++ Bytes.ofText s

def boolean (b : Bool) : Bytes := [if b then 1 else 0]

/-! ## Reading -/

abbrev Reader := StateT Bytes Option

def octet : Reader UInt8
  | b :: rest => some (b, rest)
  | [] => none

def take (n : Nat) : Reader Bytes := fun blob =>
  if n ≤ blob.length then some (blob.take n, blob.drop n) else none

/-- A number of at most `groups` octets, the last of which may not exceed `top`. -/
def readNumber : (groups : Nat) → (top : UInt8) → Reader Nat
  | 0, _ => fun _ => none
  | groups + 1, top => do
    let b ← octet
    if b < 128 then
      if groups = 0 ∧ top < b then failure else return b.toNat
    else return b.toNat - 128 + 128 * (← readNumber groups top)

def readU16 : Reader UInt16 := return UInt16.ofNat (← readNumber 3 3)

def readU32 : Reader UInt32 := return UInt32.ofNat (← readNumber 5 15)

def readText (limit : Nat) : Reader (Bounded limit) := do
  let octets ← take (← readNumber 10 1)
  let some s := octets.text? | failure
  let some t := Bounded.ofText? limit s | failure
  return t

def readBoolean : Reader Bool := do
  let b ← octet
  if b = 0 then return false
  if b = 1 then return true
  failure

end Firmware.Blob

namespace Firmware

open Blob

def DeviceSettings.blob (d : DeviceSettings) : Bytes :=
  Blob.text d.duid.text ++ Blob.text d.cpid.text ++ Blob.text d.env.text ++ Blob.text d.mqttEndpoint.text ++
    Blob.text d.telemetryCd.text

def UpdateSettings.blob (u : UpdateSettings) : Bytes :=
  number 5 u.chunkSize.toNat ++ number 5 u.maxRetries.toNat ++ number 5 u.retryBackoffMs.toNat ++
    number 5 u.progressEveryChunks.toNat ++ number 5 u.maxImageSize.toNat ++ number 3 u.httpsPort.toNat ++
    number 5 u.connectTimeoutMs.toNat ++ number 5 u.postDownloadDelayMs.toNat ++ number 5 u.ackSettleMs.toNat ++
    Blob.text u.rxFilePath.text ++ Blob.text u.signerCertPath.text ++ boolean u.allowDowngrade

def Settings.blob (s : Settings) : Bytes := s.device.blob ++ s.ota.blob

def DeviceSettings.read : Reader DeviceSettings := do
  let duid ← readText 128
  let cpid ← readText 64
  let env ← readText 32
  let mqttEndpoint ← readText 128
  let telemetryCd ← readText 16
  return { duid, cpid, env, mqttEndpoint, telemetryCd }

def UpdateSettings.read : Reader UpdateSettings := do
  let chunkSize ← readU32
  let maxRetries ← readU32
  let retryBackoffMs ← readU32
  let progressEveryChunks ← readU32
  let maxImageSize ← readU32
  let httpsPort ← readU16
  let connectTimeoutMs ← readU32
  let postDownloadDelayMs ← readU32
  let ackSettleMs ← readU32
  let rxFilePath ← readText 64
  let signerCertPath ← readText 64
  let allowDowngrade ← readBoolean
  return { chunkSize, maxRetries, retryBackoffMs, progressEveryChunks, maxImageSize, httpsPort, connectTimeoutMs,
           postDownloadDelayMs, ackSettleMs, rxFilePath, signerCertPath, allowDowngrade }

def Settings.ofBlob? (blob : Bytes) : Option Settings := do
  let (device, rest) ← DeviceSettings.read.run blob
  let (ota, _) ← UpdateSettings.read.run rest
  return { device, ota }

end Firmware
