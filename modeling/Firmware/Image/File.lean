import Firmware.Message.Inbound
import Firmware.Settings.Basic
/-!
# File — what the flash device has to know to receive an image

The declared size, the name of the receive file, and the signature to check when the file is closed, if there is one.
-/
namespace Firmware

structure Signature where
  certPath : Bounded 64
  data : Bytes
deriving DecidableEq

structure ReceiveFile where
  path : Bounded 64
  size : UInt32
  signature : Option Signature
deriving DecidableEq

def ReceiveFile.ofSettings (u : UpdateSettings) (size : UInt32) (digest : Option ImageDigest) : ReceiveFile :=
  { path := u.rxFilePath
    size
    signature := digest.map fun d => { certPath := u.signerCertPath, data := d.octets } }

end Firmware
