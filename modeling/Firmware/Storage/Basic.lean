import Firmware.Bytes
import Firmware.Error
/-!
# Storage — small values by namespace and key

Every slot is named by a namespace and a key and holds octets.  While an outage lasts, reading, writing and deleting
fail with its error; asking whether a slot exists does not.
-/
namespace Firmware

structure Slot where
  space : String
  key : String
deriving DecidableEq, Repr

structure Storage where
  /-- The values, newest first; every slot stands at most once. -/
  values : List (Slot × Bytes) := []
  outage : Option StorageError := none
deriving DecidableEq, Repr

namespace Storage

/-- The value of a slot, whatever the outage. -/
def get? (s : Storage) (slot : Slot) : Option Bytes := (s.values.find? (·.1 = slot)).map Prod.snd

def erase (s : Storage) (slot : Slot) : Storage := { s with values := s.values.filter (·.1 ≠ slot) }

def put (s : Storage) (slot : Slot) (value : Bytes) : Storage :=
  { s with values := (slot, value) :: (s.erase slot).values }

def contains (s : Storage) (slot : Slot) : Bool := (s.get? slot).isSome

def read (s : Storage) (slot : Slot) (capacity : Nat) : Except StorageError Bytes :=
  match s.outage with
  | some e => .error e
  | none =>
    match s.get? slot with
    | none => .error .notFound
    | some value => if capacity < value.length then .error .tooLarge else .ok value

def write (s : Storage) (slot : Slot) (value : Bytes) : Except StorageError Storage :=
  match s.outage with
  | some e => .error e
  | none => .ok (s.put slot value)

/-- Deleting a slot that holds nothing succeeds. -/
def delete (s : Storage) (slot : Slot) : Except StorageError Storage :=
  match s.outage with
  | some e => .error e
  | none => .ok (s.erase slot)

/-! ## What an operation does to each slot -/

theorem get?_erase (s : Storage) (slot other : Slot) :
    (s.erase slot).get? other = if other = slot then none else s.get? other := by
  unfold get? erase
  induction s.values with
  | nil => simp
  | cons v vs ih => grind

theorem get?_put (s : Storage) (slot other : Slot) (value : Bytes) :
    (s.put slot value).get? other = if other = slot then some value else s.get? other := by
  have h := get?_erase s slot other
  unfold get? at h ⊢
  unfold put
  grind

end Storage
end Firmware
