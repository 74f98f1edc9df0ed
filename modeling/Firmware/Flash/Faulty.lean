import Firmware.Flash.Partition
/-!
# Faulty — a partition whose operations fail as foreseen

Each operation has a queue that says how its coming calls go.  A call without an entry, or with an empty one, reaches
the partition; an error is answered in its place.  A write may also be cut: only the front of its block reaches the
partition then.
-/
namespace Firmware

inductive WriteFault where
  | fail (e : FlashError)
  /-- Only so many octets of the block reach the partition. -/
  | cut (limit : Nat)
deriving DecidableEq, Repr

structure FaultyPartition where
  partition : Partition
  creates : List (Option FlashError) := []
  writes : List (Option WriteFault) := []
  closes : List (Option FlashError) := []
  aborts : List (Option FlashError) := []
  activations : List (Option FlashError) := []
  states : List (Option FlashError) := []

namespace FaultyPartition

def orElse (fault : Option FlashError) (p : Partition) (answer : Except FlashError Unit × Partition) :
    Except FlashError Unit × Partition :=
  match fault with
  | some e => (.error e, p)
  | none => answer

def create (f : FaultyPartition) (file : ReceiveFile) : Except FlashError Unit × FaultyPartition :=
  let (answer, partition) := orElse f.creates.head?.join f.partition (f.partition.create file)
  (answer, { f with partition, creates := f.creates.tail })

def write (f : FaultyPartition) (offset : UInt32) (block : Bytes) : Except FlashError Nat × FaultyPartition :=
  let (answer, partition) :=
    match f.writes.head?.join with
    | some (.fail e) => (.error e, f.partition)
    | some (.cut limit) => f.partition.write offset (block.take limit)
    | none => f.partition.write offset block
  (answer, { f with partition, writes := f.writes.tail })

def close (f : FaultyPartition) (file : ReceiveFile) : Except FlashError Unit × FaultyPartition :=
  let (answer, partition) := orElse f.closes.head?.join f.partition (f.partition.close file)
  (answer, { f with partition, closes := f.closes.tail })

def abort (f : FaultyPartition) : Except FlashError Unit × FaultyPartition :=
  let (answer, partition) := orElse f.aborts.head?.join f.partition f.partition.abort
  (answer, { f with partition, aborts := f.aborts.tail })

def activate (f : FaultyPartition) : Except FlashError Unit × FaultyPartition :=
  let (answer, partition) := orElse f.activations.head?.join f.partition f.partition.activate
  (answer, { f with partition, activations := f.activations.tail })

def setState (f : FaultyPartition) (next : ImageState) : Except FlashError Unit × FaultyPartition :=
  let (answer, partition) := orElse f.states.head?.join f.partition (f.partition.setState next)
  (answer, { f with partition, states := f.states.tail })

instance : FlashDevice FaultyPartition where
  create := create
  write := write
  close := close
  abort := abort
  activate := activate
  setState := setState
  state f := f.partition.state

end FaultyPartition
end Firmware
