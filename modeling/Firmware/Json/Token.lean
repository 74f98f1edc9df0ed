import Firmware.Bytes
/-!
# Token — the lexical elements of JSON

A `Lexer` takes a payload octet by octet and collects tokens.  The lexical grammar is checked in full: the form of
numbers, the escapes inside strings, no control octet in a string.  What a string spells is not decided here: its
content stays a list of raw octets and escaped UTF-16 units, since a string nobody asks for may hold octets that are
no UTF-8 and units that form no pair.
-/
namespace Firmware.Json

/-- A piece of a string's content: an octet as it stands, or a UTF-16 unit written as an escape. -/
inductive Piece where
  | octet (b : UInt8)
  | unit (u : Nat)
deriving DecidableEq, Repr

abbrev Content := List Piece

inductive Token where
  | openObject
  | closeObject
  | openArray
  | closeArray
  | colon
  | comma
  | null
  | boolean (value : Bool)
  | number (digits : Bytes)
  | string (content : Content)
deriving DecidableEq, Repr

def isSpace (b : UInt8) : Bool := b == 0x20 || b == 0x0A || b == 0x0D || b == 0x09

def isDigit (b : UInt8) : Bool := 0x30 ≤ b && b ≤ 0x39

def hexDigit? (b : UInt8) : Option Nat :=
  if 0x30 ≤ b && b ≤ 0x39 then some (b.toNat - 0x30)
  else if 0x61 ≤ b && b ≤ 0x66 then some (b.toNat - 0x57)
  else if 0x41 ≤ b && b ≤ 0x46 then some (b.toNat - 0x37)
  else none

def shortEscape? (b : UInt8) : Option UInt8 :=
  if b == 0x22 then some 0x22        -- quote
  else if b == 0x5C then some 0x5C   -- backslash
  else if b == 0x2F then some 0x2F   -- slash
  else if b == 0x62 then some 0x08   -- b
  else if b == 0x66 then some 0x0C   -- f
  else if b == 0x6E then some 0x0A   -- n
  else if b == 0x72 then some 0x0D   -- r
  else if b == 0x74 then some 0x09   -- t
  else none

/-! ## Numbers

A number is a minus sign or none, digits without a leading zero, a fraction or none, an exponent or none. -/

inductive NumberPart where
  | minus
  | zero
  | integer
  | point
  | fraction
  | exponent
  | exponentSign
  | exponentDigits
deriving DecidableEq, Repr

/-- The part that the next octet leads to; nothing when it cannot belong to the number. -/
def NumberPart.next? (part : NumberPart) (b : UInt8) : Option NumberPart :=
  let isExponent := b == 0x65 || b == 0x45
  match part with
  | .minus => if b == 0x30 then some .zero else if isDigit b then some .integer else none
  | .zero => if b == 0x2E then some .point else if isExponent then some .exponent else none
  | .integer =>
    if isDigit b then some .integer else if b == 0x2E then some .point
    else if isExponent then some .exponent else none
  | .point => if isDigit b then some .fraction else none
  | .fraction => if isDigit b then some .fraction else if isExponent then some .exponent else none
  | .exponent =>
    if b == 0x2B || b == 0x2D then some .exponentSign else if isDigit b then some .exponentDigits else none
  | .exponentSign => if isDigit b then some .exponentDigits else none
  | .exponentDigits => if isDigit b then some .exponentDigits else none

def NumberPart.isComplete : NumberPart → Bool
  | .zero | .integer | .fraction | .exponentDigits => true
  | .minus | .point | .exponent | .exponentSign => false

/-! ## The lexer -/

/-- Where the lexer stands.  Lists that are still growing hold the newest entry first. -/
inductive Mode where
  | between
  /-- Inside a word; these octets are still owed. -/
  | word (owed : Bytes) (token : Token)
  | number (part : NumberPart) (digits : Bytes)
  | string (content : Content)
  | escape (content : Content)
  | unit (owed : Nat) (value : Nat) (content : Content)
deriving DecidableEq, Repr

structure Lexer where
  mode : Mode := .between
  tokens : List Token := []
deriving DecidableEq, Repr

namespace Lexer

def start (tokens : List Token) (b : UInt8) : Option Lexer :=
  if isSpace b then some ⟨.between, tokens⟩
  else if b == 0x7B then some ⟨.between, .openObject :: tokens⟩
  else if b == 0x7D then some ⟨.between, .closeObject :: tokens⟩
  else if b == 0x5B then some ⟨.between, .openArray :: tokens⟩
  else if b == 0x5D then some ⟨.between, .closeArray :: tokens⟩
  else if b == 0x3A then some ⟨.between, .colon :: tokens⟩
  else if b == 0x2C then some ⟨.between, .comma :: tokens⟩
  else if b == 0x22 then some ⟨.string [], tokens⟩
  else if b == 0x6E then some ⟨.word [0x75, 0x6C, 0x6C] .null, tokens⟩
  else if b == 0x74 then some ⟨.word [0x72, 0x75, 0x65] (.boolean true), tokens⟩
  else if b == 0x66 then some ⟨.word [0x61, 0x6C, 0x73, 0x65] (.boolean false), tokens⟩
  else if b == 0x2D then some ⟨.number .minus [b], tokens⟩
  else if b == 0x30 then some ⟨.number .zero [b], tokens⟩
  else if isDigit b then some ⟨.number .integer [b], tokens⟩
  else none

/-- Takes one octet; nothing when no JSON text goes on like this. -/
def feed (l : Lexer) (b : UInt8) : Option Lexer :=
  match l.mode with
  | .between => start l.tokens b
  | .word [] _ => none
  | .word [last] token => if b == last then some ⟨.between, token :: l.tokens⟩ else none
  | .word (c :: owed) token => if b == c then some { l with mode := .word owed token } else none
  | .number part digits =>
    match part.next? b with
    | some part' => some { l with mode := .number part' (b :: digits) }
    | none => if part.isComplete then start (.number digits.reverse :: l.tokens) b else none
  | .string content =>
    if b == 0x22 then some ⟨.between, .string content.reverse :: l.tokens⟩
    else if b == 0x5C then some { l with mode := .escape content }
    else if b < 0x20 then none
    else some { l with mode := .string (.octet b :: content) }
  | .escape content =>
    if b == 0x75 then some { l with mode := .unit 4 0 content }
    else (shortEscape? b).map fun c => { l with mode := .string (.octet c :: content) }
  | .unit owed value content =>
    (hexDigit? b).map fun d =>
      if owed ≤ 1 then { l with mode := .string (.unit (16 * value + d) :: content) }
      else { l with mode := .unit (owed - 1) (16 * value + d) content }

def finish (l : Lexer) : Option (List Token) :=
  match l.mode with
  | .between => some l.tokens.reverse
  | .number part digits => if part.isComplete then some (l.tokens.reverse ++ [.number digits.reverse]) else none
  | _ => none

end Lexer

def tokens? (payload : Bytes) : Option (List Token) := do (← payload.foldlM Lexer.feed {}).finish

end Firmware.Json
