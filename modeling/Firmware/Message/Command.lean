import Firmware.Led
import Firmware.Text.Scan
/-!
# Command — what the cloud may ask the device to do

A command is a word and, for the lights, an argument.  Words are separated by blanks, ASCII letters count in either
case, and what follows the argument is ignored.
-/
namespace Firmware

inductive CommandFault where
  | empty
  | badArgument
deriving DecidableEq, Repr

def CommandFault.message : CommandFault → String
  | .empty => "Invalid command: empty"
  | .badArgument => "Invalid argument: expected 'on' or 'off'"

inductive Command where
  | ping
  | led (led : Led) (on : Bool)
  | invalid (why : CommandFault)
  | unknown
deriving DecidableEq, Repr

namespace Command

def ofArgument (led : Led) : List (List Char) → Command
  | [] => .invalid .badArgument
  | arg :: _ =>
    if Scan.sameName arg "on".toList then .led led true
    else if Scan.sameName arg "off".toList then .led led false
    else .invalid .badArgument

def ofWords : List (List Char) → Command
  | [] => .invalid .empty
  | name :: args =>
    if Scan.sameName name "ping".toList then .ping
    else if Scan.sameName name "led-red".toList then ofArgument .red args
    else if Scan.sameName name "led-green".toList then ofArgument .green args
    else .unknown

def ofText (text : String) : Command := ofWords (Scan.words text.toList)

def describe : Command → String
  | .ping => "Ping"
  | .led which on => "Led \x7b led: " ++ which.name ++ ", on: " ++ (if on then "true" else "false") ++ " \x7d"
  | .invalid why => "Invalid(\"" ++ why.message ++ "\")"
  | .unknown => "Unknown"

end Command
end Firmware
