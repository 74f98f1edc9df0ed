import Firmware.Json.Token
/-!
# Text — what a JSON string spells

`Content.text?` joins escaped surrogate pairs and reads the octets as UTF-8.  A lone surrogate and octets that are no
UTF-8 spell nothing.  `quoted` writes a text as a JSON string: the quote, the backslash and the control characters
below U+0020 are escaped, and nothing else is.
-/
namespace Firmware.Json

def isHighSurrogate (u : Nat) : Bool := 0xD800 ≤ u && u ≤ 0xDBFF

def isLowSurrogate (u : Nat) : Bool := 0xDC00 ≤ u && u ≤ 0xDFFF

def joinSurrogates (high low : Nat) : Nat := 0x10000 + (high - 0xD800) * 0x400 + (low - 0xDC00)

/-- The octets that the content stands for; `done` holds those of the pieces before, newest first. -/
def octetsFrom? (done : Bytes) : Content → Option Bytes
  | [] => some done.reverse
  | .octet b :: rest => octetsFrom? (b :: done) rest
  | .unit high :: .unit low :: rest =>
    if isHighSurrogate high then
      if isLowSurrogate low then
        octetsFrom? ((String.utf8EncodeChar (Char.ofNat (joinSurrogates high low))).reverse ++ done) rest
      else none
    else if isLowSurrogate high then none
    else octetsFrom? ((String.utf8EncodeChar (Char.ofNat high)).reverse ++ done) (.unit low :: rest)
  | .unit u :: rest =>
    if isHighSurrogate u || isLowSurrogate u then none
    else octetsFrom? ((String.utf8EncodeChar (Char.ofNat u)).reverse ++ done) rest

def Content.text? (content : Content) : Option String := do (← octetsFrom? [] content).text?

/-! ## Writing -/

def escaped (c : Char) : List Char :=
  if c = '"' then ['\\', '"']
  else if c = '\\' then ['\\', '\\']
  else if c = '\n' then ['\\', 'n']
  else if c = '\r' then ['\\', 'r']
  else if c = '\t' then ['\\', 't']
  else if c = '\x08' then ['\\', 'b']
  else if c = '\x0c' then ['\\', 'f']
  else if c.toNat < 0x20 then ['\\', 'u', '0', '0', Nat.digitChar (c.toNat / 16), Nat.digitChar (c.toNat % 16)]
  else [c]

def quoted (s : String) : String := "\"" ++ String.ofList (s.toList.flatMap escaped) ++ "\""

end Firmware.Json
