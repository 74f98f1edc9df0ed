/-!
# Version — whether an offer is newer

Versions are compared as plain texts, code point by code point.  That puts them in the right order as long as every
segment keeps its width.
-/
namespace Firmware

inductive VersionOrder where
  | same
  | rollback
  | upgrade
deriving DecidableEq, Repr

def VersionOrder.ofOffer (running offered : String) : VersionOrder :=
  if offered = running then .same
  else if offered < running then .rollback
  else .upgrade

end Firmware
