import Firmware.Image.Url
import Firmware.Message.Ack
import Firmware.Message.Command
import Firmware.Text.Hex
/-!
# Inbound — messages from the cloud

A payload is a JSON record whose `ct` tells its type: 0 is a command, 1 offers an update, every other type is left
alone.  Decoding first reads the record as a whole; only then does it look at the acknowledgement id and at the fields
that the type asks for.  A request that names an id but cannot be decoded keeps that id, so that it can be answered.
-/
namespace Firmware

structure ImageDigest where
  octets : Bytes
  size_eq : octets.length = 32
deriving DecidableEq

def ImageDigest.ofHex? (hex : String) : Option ImageDigest :=
  if hex.utf8ByteSize = 64 then
    match Hex.octets? hex.toList with
    | some octets => if h : octets.length = 32 then some ⟨octets, h⟩ else none
    | none => none
  else none

structure Offer where
  url : Bounded maxUrlLength
  fileName : Bounded 128
  version : Bounded 32
  ackId : Option AckId
  digest : Option ImageDigest
deriving DecidableEq

inductive Inbound where
  | command (command : Command) (text : Bounded 128) (ackId : Option AckId)
  | offer (offer : Offer)
  /-- A request that asks for an acknowledgement and cannot be decoded. -/
  | malformed (kind : RequestKind) (ackId : AckId) (error : MessageError)
  | other (type : UInt16)
deriving DecidableEq

namespace Inbound

open Json (Value Fields)

structure Download where
  url : Option String
  fileName : Option String
  sha256 : Option String
deriving DecidableEq

/-- The fields of a message before their contents are looked at. -/
structure Envelope where
  ct : Option Nat
  cmd : Option String
  ack : Option String
  sw : Option String
  urls : List Download
deriving DecidableEq

def textField? (fields : Fields) (name : String) : Option (Option String) :=
  Json.optional? Value.text? (fields.lookup name)

def Download.ofJson? (v : Value) : Option Download := do
  let fields ← v.fields? ["url", "fileName", "sha256"] 0
  return {
    url := ← textField? fields "url"
    fileName := ← textField? fields "fileName"
    sha256 := ← textField? fields "sha256" }

/-- The list of downloads; a missing list is empty. -/
def downloads? : Option Value → Option (List Download)
  | none => some []
  | some v => do (← v.items?).mapM Download.ofJson?

def Envelope.ofJson? (v : Value) : Option Envelope := do
  let fields ← v.fields? ["ct", "cmd", "ack", "sw", "urls"] 1
  return {
    ct := ← Json.optional? (Value.natBelow? UInt16.size) (fields.lookup "ct")
    cmd := ← textField? fields "cmd"
    ack := ← textField? fields "ack"
    sw := ← textField? fields "sw"
    urls := ← downloads? (fields.lookup "urls") }

def Envelope.parse? (payload : Bytes) : Option Envelope := do Envelope.ofJson? (← Value.parse? payload)

def fit (limit : Nat) (name : String) (s : String) : Except MessageError (Bounded limit) :=
  match Bounded.ofText? limit s with
  | some t => .ok t
  | none => .error (.fieldTooLong name)

def require {α : Type} (name : String) : Option α → Except MessageError α
  | some a => .ok a
  | none => .error (.missingField name)

namespace Envelope

/-- The id to acknowledge; an empty one asks for nothing. -/
def ackId (e : Envelope) : Except MessageError (Option AckId) :=
  match e.ack with
  | none => .ok none
  | some id => if id.isEmpty then .ok none else (fit 64 "ack" id).map some

def command (e : Envelope) : Except MessageError (Command × Bounded 128) := do
  let text ← fit 128 "cmd" (← require "cmd" e.cmd)
  return (Command.ofText text.text, text)

def offer (e : Envelope) (ackId : Option AckId) : Except MessageError Offer := do
  let version ← require "sw" e.sw
  let download ← require "urls" e.urls.head?
  let digest ← match download.sha256 with
    | none => pure none
    | some hex =>
      match ImageDigest.ofHex? hex with
      | some d => pure (some d)
      | none => throw (.invalidField "sha256")
  let url ← fit maxUrlLength "url" (← require "url" download.url)
  let fileName ← fit 128 "fileName" (download.fileName.getD "")
  let version ← fit 32 "sw" version
  return { url, fileName, version, ackId, digest }

end Envelope

/-- A failed request keeps its id if it has one. -/
def settle (kind : RequestKind) (ackId : Option AckId) : Except MessageError Inbound → Except MessageError Inbound
  | .ok message => .ok message
  | .error e =>
    match ackId with
    | some id => .ok (.malformed kind id e)
    | none => .error e

def ofEnvelope (e : Envelope) : Except MessageError Inbound := do
  let type ← require "ct" e.ct
  let ackId ← e.ackId
  if type = 0 then settle .command ackId (e.command.map fun (c, text) => .command c text ackId)
  else if type = 1 then settle .update ackId ((e.offer ackId).map .offer)
  else return .other (UInt16.ofNat type)

def parse (payload : Bytes) : Except MessageError Inbound :=
  match Envelope.parse? payload with
  | some e => ofEnvelope e
  | none => .error .json

end Inbound
end Firmware
