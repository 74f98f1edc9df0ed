import Firmware.Http.Head
import Firmware.Http.Request
import Firmware.Source.Basic
/-!
# Client — range requests over one kept connection

A session is the stream of octets that the peer still sends.  Requests follow one another on it; a request reads one
response, head and body, off its front.  A session that breaks is given up, so that the next request finds none.  A
request is always sent whole: a connection that breaks or falls silent is a stream that ends.
-/
namespace Firmware.Http

structure Session where
  host : Bounded 128
  unread : Bytes
deriving DecidableEq

/-- The network as the client sees it: one reachable address, and what each coming connection to it sends. -/
structure Network where
  address : String := "127.0.0.1"
  streams : List Bytes := []
deriving DecidableEq

structure Client where
  timeoutMs : UInt32 := 5000
  network : Network := {}
  session : Option Session := none
  sent : List String := []
deriving DecidableEq

namespace Client

def disconnect (c : Client) : Client := { c with session := none }

/-- Opens a connection.  There is none within no time, to another address, or when no connection is accepted any
more. -/
def dial (c : Client) (host : Bounded 128) : Except FetchError Unit × Client :=
  if c.timeoutMs = 0 ∨ host.text ≠ c.network.address then (.error .network, c)
  else
    match c.network.streams with
    | [] => (.error .network, c)
    | stream :: streams =>
      (.ok (),
        { c with
          network := { c.network with streams }
          session := some { host, unread := stream }
          sent := "" :: c.sent })

def connect (c : Client) (host : String) : Except FetchError Unit × Client :=
  match Bounded.ofText? 128 host with
  | none => (.error .headerTooLarge, c.disconnect)
  | some host => c.disconnect.dial host

def readBody (head : Head) (buffer unread : Bytes) : Fetched × Bytes :=
  match head.contentLength with
  | none => (⟨.error .protocol, buffer⟩, unread)
  | some length =>
    let size := length.toNat
    if 400 ≤ head.status then
      -- The body of a failure is passed over so that the session stays usable.
      (⟨.ok { status := head.status, contentRange := head.contentRange, bodySize := 0 }, buffer⟩, unread.drop size)
    else if buffer.length < size then (⟨.error (.bodyTooLarge (UInt64.ofNat buffer.length)), buffer⟩, unread)
    else if unread.length < size then (⟨.error .network, overlay buffer unread⟩, [])
    else
      (⟨.ok { status := head.status, contentRange := head.contentRange, bodySize := length },
        overlay buffer (unread.take size)⟩, unread.drop size)

def readResponse (buffer unread : Bytes) : Fetched × Bytes :=
  match readHead unread with
  | (.ok head, unread) => readBody head buffer unread
  | (.error e, unread) => (⟨.error e, buffer⟩, unread)

def fetch (c : Client) (resource : String) (range : ByteRange) (buffer : Bytes) : Fetched × Client :=
  match c.session with
  | none => (⟨.error .notConnected, buffer⟩, c)
  | some session =>
    let sent :=
      match c.sent with
      | text :: older => (text ++ requestText session.host.text resource range) :: older
      | [] => []
    let (fetched, unread) := readResponse buffer session.unread
    let session :=
      match fetched.answer with
      | .error .network => none
      | _ => some { session with unread }
    (fetched, { c with session, sent })

theorem length_readBody (head : Head) (buffer unread : Bytes) :
    (readBody head buffer unread).1.buffer.length = buffer.length := by
  unfold readBody
  cases head.contentLength with
  | none => rfl
  | some length =>
    dsimp only
    repeat' split
    all_goals first | rfl | exact length_overlay _ _

theorem length_readResponse (buffer unread : Bytes) :
    (readResponse buffer unread).1.buffer.length = buffer.length := by
  unfold readResponse
  split
  · exact length_readBody _ _ _
  · rfl

theorem length_fetch (c : Client) (resource : String) (range : ByteRange) (buffer : Bytes) :
    (c.fetch resource range buffer).1.buffer.length = buffer.length := by
  unfold fetch
  split
  · rfl
  · exact length_readResponse _ _

instance : RangeSource Client where
  connect := connect
  disconnect := disconnect
  fetch := fetch
  isOpen c := c.session.isSome
  length_fetch := length_fetch

end Client
end Firmware.Http
