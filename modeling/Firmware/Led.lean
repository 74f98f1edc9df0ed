/-!
# Led — the two lights of the board

Each light hangs on a pin: high is on, low is off.  A pin that is broken takes no level; the light then stays as it is,
and a warning is logged.  A bank starts with both lights switched off, red first.
-/
namespace Firmware

inductive Led where
  | red
  | green
deriving DecidableEq, Repr

def Led.name : Led → String
  | .red => "Red"
  | .green => "Green"

inductive LogLevel where
  | debug
  | info
  | warn
  | error
deriving DecidableEq, Repr

def LogLevel.name : LogLevel → String
  | .debug => "DEBUG"
  | .info => "INFO"
  | .warn => "WARN"
  | .error => "ERROR"

structure LogLine where
  level : LogLevel
  text : String
deriving DecidableEq, Repr

def LogLine.render (l : LogLine) : String := l.level.name ++ " " ++ l.text

structure LedBank where
  redBroken : Bool := false
  greenBroken : Bool := false
deriving DecidableEq, Repr

namespace LedBank

def works (bank : LedBank) : Led → Bool
  | .red => !bank.redBroken
  | .green => !bank.greenBroken

def log (bank : LedBank) (led : Led) (on : Bool) : LogLine :=
  if bank.works led then ⟨.debug, "LED: " ++ led.name ++ (if on then " on" else " off")⟩
  else ⟨.warn, "LED: failed to drive " ++ led.name ++ ": Other"⟩

def startUp : List (Led × Bool) := [(.red, false), (.green, false)]

end LedBank
end Firmware
