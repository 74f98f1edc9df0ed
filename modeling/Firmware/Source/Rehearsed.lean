import Firmware.Source.Basic
/-!
# Rehearsed — a source that answers as foreseen

It serves ranges of one image.  Two queues say otherwise for the coming calls: one for connecting, one for fetching,
where an answer may be given in full.
-/
namespace Firmware

inductive Rehearsal where
  | fail (e : FetchError)
  | answer (status : UInt16) (contentRange : Option String) (body : Bytes) (bodySize : UInt64)
  | serve
deriving DecidableEq, Repr

structure RehearsedSource where
  image : ByteArray := .empty
  connects : List (Option FetchError) := []
  fetches : List Rehearsal := []
  connected : Bool := false

namespace RehearsedSource

def connect (s : RehearsedSource) (_host : String) : Except FetchError Unit × RehearsedSource :=
  match s.connects.head?.join with
  | some e => (.error e, { s with connects := s.connects.tail, connected := false })
  | none => (.ok (), { s with connects := s.connects.tail, connected := true })

def disconnect (s : RehearsedSource) : RehearsedSource := { s with connected := false }

/-- Hands out a body: it has to fit into the buffer, and its header into 32 octets. -/
def respond (status : UInt16) (contentRange : Option String) (body : Bytes) (bodySize : UInt64) (buffer : Bytes) :
    Fetched :=
  if buffer.length < body.length then ⟨.error (.bodyTooLarge (UInt64.ofNat buffer.length)), buffer⟩
  else
    let buffer := overlay buffer body
    match contentRange with
    | none => ⟨.ok { status, contentRange := none, bodySize }, buffer⟩
    | some value =>
      match Bounded.ofText? 32 value with
      | some value => ⟨.ok { status, contentRange := some value, bodySize }, buffer⟩
      | none => ⟨.error .headerTooLarge, buffer⟩

def serve (image : ByteArray) (range : ByteRange) (buffer : Bytes) : Fetched :=
  let last := min range.last.toNat (image.size - 1)
  let body := (image.extract range.first.toNat (last + 1)).data.toList
  let contentRange :=
    "bytes " ++ Decimal.text range.first.toNat ++ "-" ++ Decimal.text last ++ "/" ++ Decimal.text image.size
  respond 206 (some contentRange) body (UInt64.ofNat body.length) buffer

def fetch (s : RehearsedSource) (_resource : String) (range : ByteRange) (buffer : Bytes) :
    Fetched × RehearsedSource :=
  if !s.connected then (⟨.error .notConnected, buffer⟩, s)
  else
    let rest := { s with fetches := s.fetches.tail }
    match s.fetches.head?.getD .serve with
    | .fail .network => (⟨.error .network, buffer⟩, { rest with connected := false })
    | .fail e => (⟨.error e, buffer⟩, rest)
    | .answer status contentRange body bodySize => (respond status contentRange body bodySize buffer, rest)
    | .serve => (serve s.image range buffer, rest)

theorem length_respond (status : UInt16) (contentRange : Option String) (body : Bytes) (bodySize : UInt64)
    (buffer : Bytes) : (respond status contentRange body bodySize buffer).buffer.length = buffer.length := by
  unfold respond
  split
  · rfl
  · cases contentRange with
    | none => exact length_overlay _ _
    | some value =>
      dsimp only
      split <;> exact length_overlay _ _

theorem length_fetch (s : RehearsedSource) (resource : String) (range : ByteRange) (buffer : Bytes) :
    (s.fetch resource range buffer).1.buffer.length = buffer.length := by
  unfold fetch
  split
  · rfl
  · split
    · rfl
    · rfl
    · exact length_respond _ _ _ _ _
    · exact length_respond _ _ _ _ _

instance : RangeSource RehearsedSource where
  connect := connect
  disconnect := disconnect
  fetch := fetch
  isOpen := connected
  length_fetch := length_fetch

end RehearsedSource
end Firmware
