import Firmware.Text.Bounded
import Firmware.Text.Scan
/-!
# Url — where an image is fetched from

A download URL is split once: `scheme://host/resource`.  The resource keeps its leading slash and everything after it,
the query included.
-/
namespace Firmware

def maxUrlLength : Nat := 2000

inductive UrlFault where
  | tooLong
  | noScheme
  | emptyScheme
  | noResource
  | emptyHost
  | hostTooLong
  | resourceTooLong
deriving DecidableEq, Repr

def UrlFault.reason : UrlFault → String
  | .tooLong => "URL too long"
  | .noScheme => "missing scheme separator"
  | .emptyScheme => "empty scheme"
  | .noResource => "missing resource path"
  | .emptyHost => "empty host"
  | .hostTooLong => "host too long"
  | .resourceTooLong => "resource too long"

/-- The host that serves an image, and what to ask it for. -/
structure ImageUrl where
  host : Bounded 128
  resource : Bounded 2048
deriving DecidableEq

namespace ImageUrl

/-- Splits a URL at the first `://` and at the first slash after it. -/
def parse (url : String) : Except UrlFault ImageUrl := do
  if url.utf8ByteSize > maxUrlLength then throw .tooLong
  let some (scheme, rest) := Scan.splitOnce [':', '/', '/'] url.toList | throw .noScheme
  if scheme.isEmpty then throw .emptyScheme
  if !rest.contains '/' then throw .noResource
  let host := rest.takeWhile (· != '/')
  let resource := rest.dropWhile (· != '/')
  if host.isEmpty then throw .emptyHost
  let some host := Bounded.ofText? 128 (String.ofList host) | throw .hostTooLong
  let some resource := Bounded.ofText? 2048 (String.ofList resource) | throw .resourceTooLong
  return { host, resource }

end ImageUrl
end Firmware
