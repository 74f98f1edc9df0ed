/-!
# State — the life of an image

An image starts out unknown, is on trial once it is complete, and ends accepted, rejected or aborted.
-/
namespace Firmware

inductive ImageState where
  | unknown
  | testing
  | accepted
  | rejected
  | aborted
deriving DecidableEq, Repr, Inhabited

namespace ImageState

def isTerminal : ImageState → Bool
  | .accepted | .rejected | .aborted => true
  | .unknown | .testing => false

def mayBecome : ImageState → (next : ImageState) → Bool
  | .unknown, .testing | .unknown, .rejected | .unknown, .aborted => true
  | .testing, .accepted | .testing, .rejected | .testing, .aborted => true
  | _, _ => false

def name : ImageState → String
  | .unknown => "Unknown"
  | .testing => "Testing"
  | .accepted => "Accepted"
  | .rejected => "Rejected"
  | .aborted => "Aborted"

end ImageState
end Firmware
