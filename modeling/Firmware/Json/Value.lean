import Firmware.Json.Token
/-!
# Value — JSON values and their token form

A `Value` keeps members in the order of the text and keeps members of equal name apart.  `Value.tokens` writes a value
as tokens; `ofTokens?` reads tokens back with an explicit stack of open brackets, so that any depth of nesting is
read in constant native stack.
-/
namespace Firmware.Json

inductive Value where
  | null
  | boolean (value : Bool)
  | number (digits : Bytes)
  | string (content : Content)
  | array (items : List Value)
  | object (members : List (Content × Value))

abbrev Member := Content × Value

/-! ## The token form -/

mutual

def Value.tokens : Value → List Token
  | .null => [.null]
  | .boolean b => [.boolean b]
  | .number digits => [.number digits]
  | .string content => [.string content]
  | .array [] => [.openArray, .closeArray]
  | .array (v :: vs) => .openArray :: v.tokens ++ moreItems vs
  | .object [] => [.openObject, .closeObject]
  | .object ((k, v) :: ms) => .openObject :: .string k :: .colon :: v.tokens ++ moreMembers ms

def moreItems : List Value → List Token
  | [] => [.closeArray]
  | v :: vs => .comma :: v.tokens ++ moreItems vs

def moreMembers : List (Content × Value) → List Token
  | [] => [.closeObject]
  | (k, v) :: ms => .comma :: .string k :: .colon :: v.tokens ++ moreMembers ms

end

/-! ## Reading tokens -/

/-- A bracket that is still open, with what it holds so far, newest first. -/
inductive Frame where
  | array (items : List Value)
  | member (members : List Member) (key : Content)

/-- What the next token has to be.  `open_` lists the brackets around it, innermost first. -/
inductive Expect where
  | value (open_ : List Frame)
  | firstItem (open_ : List Frame)
  | nextItem (items : List Value) (open_ : List Frame)
  | firstMember (open_ : List Frame)
  | name (members : List Member) (open_ : List Frame)
  | colon (members : List Member) (key : Content) (open_ : List Frame)
  | nextMember (members : List Member) (open_ : List Frame)
  | nothing (v : Value)

namespace Expect

def afterValue (v : Value) : List Frame → Expect
  | [] => .nothing v
  | .array items :: open_ => .nextItem (v :: items) open_
  | .member members key :: open_ => .nextMember ((key, v) :: members) open_

def beginValue (open_ : List Frame) : Token → Option Expect
  | .null => some (afterValue .null open_)
  | .boolean b => some (afterValue (.boolean b) open_)
  | .number digits => some (afterValue (.number digits) open_)
  | .string content => some (afterValue (.string content) open_)
  | .openArray => some (.firstItem open_)
  | .openObject => some (.firstMember open_)
  | _ => none

def feed : Expect → Token → Option Expect
  | .value open_, t => beginValue open_ t
  | .firstItem open_, .closeArray => some (afterValue (.array []) open_)
  | .firstItem open_, t => beginValue (.array [] :: open_) t
  | .nextItem items open_, .comma => some (.value (.array items :: open_))
  | .nextItem items open_, .closeArray => some (afterValue (.array items.reverse) open_)
  | .firstMember open_, .closeObject => some (afterValue (.object []) open_)
  | .firstMember open_, .string key => some (.colon [] key open_)
  | .name members open_, .string key => some (.colon members key open_)
  | .colon members key open_, .colon => some (.value (.member members key :: open_))
  | .nextMember members open_, .comma => some (.name members open_)
  | .nextMember members open_, .closeObject => some (afterValue (.object members.reverse) open_)
  | _, _ => none

def finish : Expect → Option Value
  | .nothing v => some v
  | _ => none

end Expect

def Value.ofTokens? (tokens : List Token) : Option Value := do
  (← tokens.foldlM Expect.feed (.value [])).finish

def Value.parse? (payload : Bytes) : Option Value := do Value.ofTokens? (← tokens? payload)

end Firmware.Json
