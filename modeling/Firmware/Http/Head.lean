import Firmware.Error
import Firmware.Text.Bounded
import Firmware.Text.Scan
/-!
# Head — the head of an HTTP response

A head is a status line and header lines.  Two headers matter: `Content-Length` and `Content-Range`, the last of each
counting.  `readHead` takes octets off a stream up to and including the blank line that ends a head, 2048 octets at
most.
-/
namespace Firmware.Http

structure Head where
  status : UInt16
  contentLength : Option UInt64 := none
  contentRange : Option (Bounded 32) := none
deriving DecidableEq

namespace Head

def status? (line : List Char) : Option UInt16 :=
  match Scan.words line with
  | version :: code :: _ =>
    if "HTTP/1.".toList.isPrefixOf version then (Decimal.signed? UInt16.size code).map UInt16.ofNat else none
  | _ => none

def addField (head : Head) (line : List Char) : Except FetchError Head :=
  match Scan.splitOnce [':'] line with
  | none => .error .protocol
  | some (name, value) =>
    let value := Scan.trim value
    if Scan.sameName name "content-length".toList then
      match Decimal.signed? UInt64.size value with
      | some n => .ok { head with contentLength := some (UInt64.ofNat n) }
      | none => .error .protocol
    else if Scan.sameName name "content-range".toList then
      match Bounded.ofText? 32 (String.ofList value) with
      | some range => .ok { head with contentRange := some range }
      | none => .error .headerTooLarge
    else .ok head

def parse (text : List Char) : Except FetchError Head :=
  match Scan.crlfLines text with
  | [] => .error .protocol
  | statusLine :: lines =>
    match status? statusLine with
    | none => .error .protocol
    | some status => (lines.filter (fun line => !line.isEmpty)).foldlM addField { status }

end Head

/-- The most octets that a head may have, its blank line included. -/
def maxHeadLength : Nat := 2048

def headOf (octets : Bytes) : Except FetchError Head :=
  match octets.text? with
  | some text => Head.parse (Scan.dropFinalCrlf text.toList)
  | none => .error .protocol

/-- Reads on in a head of which `head` has been read, newest octet first, the last `line` octets of it since the last
line end.  What remains of the stream is given back. -/
def readHeadFrom (head : Bytes) (line : Nat) : Bytes → Except FetchError Head × Bytes
  | [] => (.error (if line = 0 then .network else if maxHeadLength < head.length then .headerTooLarge else .network), [])
  | b :: rest =>
    let head := b :: head
    if b = 0x0A then
      if maxHeadLength < head.length then (.error .headerTooLarge, rest)
      else if line = 1 ∧ head.tail.head? = some 0x0D then (headOf head.reverse, rest)
      else readHeadFrom head 0 rest
    else readHeadFrom head (line + 1) rest

def readHead (stream : Bytes) : Except FetchError Head × Bytes := readHeadFrom [] 0 stream

end Firmware.Http
