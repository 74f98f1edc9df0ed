import Firmware.Settings.Json
/-!
# Ack — telling the cloud what became of a request

An acknowledgement names the request by the id that came with it, says how it ended and carries a short message.  The
message is cut to its room.
-/
namespace Firmware

inductive RequestKind where
  | command
  | update
deriving DecidableEq, Repr

namespace RequestKind

def code : RequestKind → Nat
  | .command => 0
  | .update => 1

def status : RequestKind → (success : Bool) → Nat
  | .command, true => 7
  | .update, true => 0
  | _, false => 4

end RequestKind

abbrev AckId := Bounded 64

structure Ack where
  id : AckId
  kind : RequestKind
  success : Bool
  message : Bounded 128
deriving DecidableEq

namespace Ack

/-- The acknowledgement whose message is written in parts, each as far as it fits. -/
def ofParts (id : AckId) (kind : RequestKind) (success : Bool) (parts : List String) : Ack :=
  { id, kind, success, message := Bounded.ofParts 128 parts }

def ofText (id : AckId) (kind : RequestKind) (success : Bool) (text : String) : Ack :=
  ofParts id kind success [text]

def status (a : Ack) : Nat := a.kind.status a.success

def json (a : Ack) : String :=
  Json.braced [Json.written "d" (Json.braced
    [Json.written "ack" (Json.quoted a.id.text),
     Json.written "type" (Decimal.text a.kind.code),
     Json.written "st" (Decimal.text a.status),
     Json.written "msg" (Json.quoted a.message.text)])]

end Ack
end Firmware
