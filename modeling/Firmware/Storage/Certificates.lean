import Firmware.Storage.Basic
/-!
# Certificates — what the device identifies itself with

Three PEM texts are kept in a namespace of their own.  The broker's client wants each to end in one NUL octet; a stored
text may end in any number of them.
-/
namespace Firmware

structure Certificates where
  deviceCert : Bytes
  deviceKey : Bytes
  rootCa : Bytes
deriving DecidableEq, Repr

namespace Storage

def certificateSlot (key : String) : Slot := ⟨"certs", key⟩

def dropFinalNuls (pem : Bytes) : Bytes := (pem.reverse.dropWhile (· == 0)).reverse

/-- The PEM text of a certificate with one NUL octet after it, `room` octets at most. -/
def loadCertificate (s : Storage) (key : String) (room : Nat) : Except CertificateError Bytes :=
  match s.read (certificateSlot key) (room - 1) with
  | .error .notFound => .error (.missing key)
  | .error .tooLarge => .error (.tooLarge key)
  | .error e => .error (.storage key e)
  | .ok value =>
    let pem := dropFinalNuls value
    if pem.isEmpty then .error (.missing key)
    else if room < pem.length + 1 then .error (.tooLarge key)
    else .ok (pem ++ [0])

def loadCertificates (s : Storage) : Except CertificateError Certificates := do
  let deviceCert ← s.loadCertificate "device_cert" 4096
  let deviceKey ← s.loadCertificate "device_key" 2048
  let rootCa ← s.loadCertificate "root_ca" 4096
  return { deviceCert, deviceKey, rootCa }

def storeCertificate (s : Storage) (key : String) (pem : Bytes) : Except CertificateError Storage :=
  match s.write (certificateSlot key) pem with
  | .ok s' => .ok s'
  | .error e => .error (.storage key e)

end Storage
end Firmware
