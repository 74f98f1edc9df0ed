import Firmware.Json.Text
import Firmware.Json.Value
/-!
# Record — fields of a JSON value by name

A record is written as an object whose members may stand in any order, or as an array of its fields in their declared
order.  In an object, members of unknown names are passed over and a known name may occur only once; every name has
to spell a text.  An array has to hold at least the first `least` fields and no item beyond the last field.
-/
namespace Firmware.Json

abbrev Fields := List (String × Value)

def named? (members : List Member) : Option Fields :=
  members.mapM fun (key, v) => return (← Content.text? key, v)

/-- The fields of a record of the given field names. -/
def Value.fields? (names : List String) (least : Nat) : Value → Option Fields
  | .object members => do
    let known := (← named? members).filter fun f => names.contains f.1
    if (known.map Prod.fst).Nodup then some known else none
  | .array items =>
    if least ≤ items.length ∧ items.length ≤ names.length then some (names.zip items) else none
  | _ => none

def Value.text? : Value → Option String
  | .string content => Content.text? content
  | _ => none

/-- The whole number that a number value writes with digits alone, if it is below `bound`. -/
def Value.natBelow? (bound : Nat) : Value → Option Nat
  | .number digits =>
    if digits.all isDigit then
      let n := digits.foldl (fun n d => 10 * n + (d.toNat - 0x30)) 0
      if n < bound then some n else none
    else none
  | _ => none

def Value.boolean? : Value → Option Bool
  | .boolean b => some b
  | _ => none

def Value.items? : Value → Option (List Value)
  | .array items => some items
  | _ => none

/-- Reads a value that may also be `null`; null and a missing value read as none. -/
def optional? {α : Type} (read : Value → Option α) : Option Value → Option (Option α)
  | none => some none
  | some .null => some none
  | some v => (read v).map some

end Firmware.Json
