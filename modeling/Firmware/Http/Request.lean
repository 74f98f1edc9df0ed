import Firmware.Image.Range
/-!
# Request — asking a server for a range

One request line, three header fields and a blank line.
-/
namespace Firmware.Http

def requestText (host resource : String) (range : ByteRange) : String :=
  "GET " ++ resource ++ " HTTP/1.1\r\nHost: " ++ host ++ "\r\nRange: " ++ range.header ++
    "\r\nConnection: keep-alive\r\n\r\n"

end Firmware.Http
