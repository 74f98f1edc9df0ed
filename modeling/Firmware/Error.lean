import Firmware.Text.Decimal
/-!
# Error — what can go wrong, and how it is told

One type per concern: fetching, flash, update, cloud messages, acknowledgements, storage, stored settings,
certificates.  `message` is the wording that log lines and failure acknowledgements carry.  A failed fetch is worth
another try only if the network or the session broke.
-/
namespace Firmware

/-- Whether a failed step may be tried again over a fresh session. -/
inductive Disposition where
  | retryable
  | fatal
deriving DecidableEq, Repr

inductive FetchError where
  | network
  | notConnected
  | status (code : UInt16)
  | protocol
  | bodyTooLarge (capacity : UInt64)
  | headerTooLarge
deriving DecidableEq, Repr

def FetchError.message : FetchError → String
  | .network => "network error"
  | .notConnected => "not connected"
  | .status code => "HTTP status " ++ Decimal.text code.toNat
  | .protocol => "malformed HTTP response"
  | .bodyTooLarge capacity => "response body exceeds " ++ Decimal.text capacity.toNat ++ " byte buffer"
  | .headerTooLarge => "response header too large"

def FetchError.disposition : FetchError → Disposition
  | .network | .notConnected => .retryable
  | .status _ | .protocol | .bodyTooLarge _ | .headerTooLarge => .fatal

inductive FlashError where
  | outOfMemory
  | noActiveFile
  | createFailed
  | fileTooLarge
  | writeFailed
  | signatureCheckFailed
  | badSignerCertificate
  | closeFailed
  | abortFailed
  | badImageState
  | commitFailed
  | rejectFailed
  | activateFailed
deriving DecidableEq, Repr

def FlashError.message : FlashError → String
  | .outOfMemory => "out of memory"
  | .noActiveFile => "no receive file open"
  | .createFailed => "failed to create receive file"
  | .fileTooLarge => "image too large for update partition"
  | .writeFailed => "flash write failed"
  | .signatureCheckFailed => "image signature check failed"
  | .badSignerCertificate => "signer certificate unreadable"
  | .closeFailed => "failed to close receive file"
  | .abortFailed => "failed to abort receive file"
  | .badImageState => "invalid image state transition"
  | .commitFailed => "failed to commit image"
  | .rejectFailed => "failed to reject image"
  | .activateFailed => "failed to activate image"

def FlashError.disposition (_ : FlashError) : Disposition := .fatal

inductive UpdateError where
  | invalidUrl (reason : String)
  | fetch (e : FetchError)
  | missingContentRange
  | malformedContentRange
  | emptyImage
  | imageTooLarge (declared max : UInt32)
  | retriesExhausted (offset attempts : UInt32)
  | unexpectedBodySize (offset expected received : UInt32)
  | shortWrite (offset expected written : UInt32)
  | flash (e : FlashError)
  | alreadyInProgress
  | notReceiving
  | nonSequential (expected got : UInt32)
  | overflow
  | incompleteTransfer (expected written : UInt32)
  | notValidated
  | downgradeRejected
  | activationReturned
deriving DecidableEq, Repr

def UpdateError.message : UpdateError → String
  | .invalidUrl reason => "invalid download URL: " ++ reason
  | .fetch e => "HTTP: " ++ e.message
  | .missingContentRange => "could not obtain image size"
  | .malformedContentRange => "malformed Content-Range header"
  | .emptyImage => "image is empty"
  | .imageTooLarge declared max =>
    "image of " ++ Decimal.text declared.toNat ++ " bytes exceeds maximum of " ++ Decimal.text max.toNat
  | .retriesExhausted offset attempts =>
    "chunk at " ++ Decimal.text offset.toNat ++ " failed after " ++ Decimal.text attempts.toNat ++ " attempts"
  | .unexpectedBodySize offset expected received =>
    "chunk at " ++ Decimal.text offset.toNat ++ ": expected " ++ Decimal.text expected.toNat ++
      " bytes, received " ++ Decimal.text received.toNat
  | .shortWrite offset expected written =>
    "expected to write " ++ Decimal.text expected.toNat ++ " bytes at " ++ Decimal.text offset.toNat ++
      ", but wrote " ++ Decimal.text written.toNat
  | .flash e => "flash: " ++ e.message
  | .alreadyInProgress => "update already in progress"
  | .notReceiving => "no active receive"
  | .nonSequential expected got =>
    "chunk offset " ++ Decimal.text got.toNat ++ " does not match expected " ++ Decimal.text expected.toNat
  | .overflow => "chunk would exceed declared image size"
  | .incompleteTransfer expected written =>
    "only " ++ Decimal.text written.toNat ++ " of " ++ Decimal.text expected.toNat ++ " bytes written"
  | .notValidated => "no verified image to activate"
  | .downgradeRejected => "downgrade rejected by policy"
  | .activationReturned => "image activation returned without reset"

def UpdateError.disposition : UpdateError → Disposition
  | .fetch e => e.disposition
  | _ => .fatal

inductive MessageError where
  | json
  | missingField (name : String)
  | fieldTooLong (name : String)
  | invalidField (name : String)
deriving DecidableEq, Repr

def MessageError.message : MessageError → String
  | .json => "invalid JSON payload"
  | .missingField name => "missing field '" ++ name ++ "'"
  | .fieldTooLong name => "field '" ++ name ++ "' too long"
  | .invalidField name => "field '" ++ name ++ "' invalid"

inductive AckError where
  | encode
  | publish
  | topicTooLong
deriving DecidableEq, Repr

def AckError.message : AckError → String
  | .encode => "ack encoding failed"
  | .publish => "ack publish failed"
  | .topicTooLong => "ack topic too long"

inductive DeviceError where
  | update (e : UpdateError)
  | message (e : MessageError)
  | ack (e : AckError)
  | start (what : String)
  | settings (what : String)
deriving DecidableEq, Repr

def DeviceError.text : DeviceError → String
  | .update e => "ota: " ++ e.message
  | .message e => "message: " ++ e.message
  | .ack e => "ack: " ++ e.message
  | .start what => "init: " ++ what
  | .settings what => "config: " ++ what

inductive StorageError where
  | notFound
  | full
  | broken
  | tooLarge
deriving DecidableEq, Repr

def StorageError.message : StorageError → String
  | .notFound => "no such key"
  | .full => "partition full"
  | .broken => "storage I/O failure"
  | .tooLarge => "value larger than buffer"

inductive SettingsError where
  | corrupted
  | invalid (why : String)
  | storageFull
  | broken
deriving DecidableEq, Repr

def SettingsError.message : SettingsError → String
  | .corrupted => "stored config does not decode"
  | .invalid why => "invalid config: " ++ why
  | .storageFull => "no room to store config"
  | .broken => "config storage I/O failure"

inductive CertificateError where
  | missing (key : String)
  | tooLarge (key : String)
  | storage (key : String) (e : StorageError)
deriving DecidableEq, Repr

def CertificateError.message : CertificateError → String
  | .missing key => "certificate '" ++ key ++ "' not provisioned"
  | .tooLarge key => "certificate '" ++ key ++ "' too large"
  | .storage key e => "certificate '" ++ key ++ "': " ++ e.message

end Firmware
