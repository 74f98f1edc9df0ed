import Firmware.Image.Plan
import Firmware.Image.Size
import Firmware.Image.Url
import Firmware.Transfer
/-!
# Download — fetching an image chunk by chunk

One session, one chunk under way.  A chunk that fails on the network is asked for again over a new session, as often as
the settings allow; any other failure ends the download.  The receive buffer is kept from chunk to chunk.
-/
namespace Firmware.Download

variable {C F ε : Type} [RangeSource C] [FlashDevice F]

open Device

def probe (resource : String) (maxSize : UInt32) : Task C F UpdateError UInt32 := do
  let fetched ← fetch resource .firstOctet [0]
  match fetched.answer with
  | .error e => throw (.fetch e)
  | .ok answer =>
    if answer.isFailure then throw (.fetch (.status answer.status))
    let some header := answer.contentRange | throw .missingContentRange
    if header.isEmpty then throw .missingContentRange
    let total ← Task.conclude (ImageSize.ofContentRange header.text)
    if total = 0 then throw .emptyImage
    if maxSize < total then throw (.imageTooLarge total maxSize)
    return total

/-- A new session in place of the broken one, after a pause.  If it does not open, the next request will tell. -/
def reconnect (u : UpdateSettings) (host : String) : Task C F ε Unit := do
  wait u.retryBackoffMs
  disconnect
  discard <| Task.attempt (connect host)

/-- How a single request for a chunk ended, if it did not end the download.  Either way it leaves the buffer. -/
inductive Reply where
  | received (buffer : Bytes)
  | interrupted (buffer : Bytes)

def request (url : ImageUrl) (range : ByteRange) (buffer : Bytes) : Task C F UpdateError Reply := do
  let fetched ← fetch url.resource.text range buffer
  match fetched.answer with
  | .ok answer =>
    if answer.isFailure then throw (.fetch (.status answer.status))
    if answer.bodySize.toNat ≠ range.size.toNat then
      throw (.unexpectedBodySize range.first range.size answer.bodySize.toUInt32)
    return .received fetched.buffer
  | .error e =>
    if e.disposition = .fatal then throw (.fetch e)
    return .interrupted fetched.buffer

/-- Asks for a range until it is answered, at most `retries` times more.  `attempts` counts the requests made
before. -/
def fetchChunk (u : UpdateSettings) (url : ImageUrl) (range : ByteRange) (attempts : UInt32) (buffer : Bytes) :
    (retries : Nat) → Task C F UpdateError Bytes
  | 0 => do
    match ← request url range buffer with
    | .received buffer => return buffer
    | .interrupted _ => throw (.retriesExhausted range.first (attempts + 1))
  | retries + 1 => do
    match ← request url range buffer with
    | .received buffer => return buffer
    | .interrupted buffer =>
      reconnect u url.host.text
      fetchChunk u url range (attempts + 1) buffer retries

/-- Whether progress is told with the chunk at `index`; telling every zero chunks counts as every one. -/
def tellsProgress (u : UpdateSettings) (index : UInt32) : Bool :=
  let every := if u.progressEveryChunks = 0 then 1 else u.progressEveryChunks
  index % every == every - 1

def percent (offset total : UInt32) : UInt8 := (offset.toUInt64 * 100 / total.toUInt64).toUInt8

/-- Fetches one chunk and writes it.  The buffer has to have room for the chunk; it is given back as it was left. -/
def fetchAndWrite (u : UpdateSettings) (url : ImageUrl) (total index : UInt32) (range : ByteRange) (buffer : Bytes) :
    Task C F UpdateError Bytes := do
  let size := range.size.toNat
  if buffer.length < size then throw (.fetch (.bodyTooLarge (UInt64.ofNat buffer.length)))
  let chunk ← fetchChunk u url range 0 (buffer.take size) u.maxRetries.toNat
  if tellsProgress u index then tell (.progress (percent range.first total) range.first total)
  discard <| Transfer.write range.first chunk
  return chunk ++ buffer.drop size

def runPlan (u : UpdateSettings) (url : ImageUrl) (plan : ChunkPlan) (index : UInt32) (buffer : Bytes) :
    Task C F UpdateError Unit :=
  match _h : plan.step? with
  | none => pure ()
  | some (range, rest) => do
    let buffer ← fetchAndWrite u url plan.total index range buffer
    runPlan u url rest (index + 1) buffer
termination_by plan.remaining
decreasing_by exact ChunkPlan.step_remaining ‹_›

/-- Fetches an image of `total` octets and writes it to the receive file.  The buffer has the size of a chunk; a chunk
larger than the image leaves the rest of it unused, so that rest is not laid out. -/
def run (u : UpdateSettings) (url : ImageUrl) (total : UInt32) : Task C F UpdateError Unit :=
  runPlan u url (.ofSize total u.chunkSize) 0 (List.replicate (min u.chunkSize.toNat total.toNat) 0)

end Firmware.Download
