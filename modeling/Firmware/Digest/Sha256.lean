import Firmware.Bytes
/-!
# Sha256 — the digest of an image

`compress` folds one block of 64 octets into the eight words of the state.  An image arrives in pieces, so a `Hasher`
absorbs octet by octet and compresses whenever a block is full; absorbing two pieces one after the other is absorbing
their concatenation (`absorb_append`).
-/
namespace Firmware.Sha256

structure Words where
  a : UInt32
  b : UInt32
  c : UInt32
  d : UInt32
  e : UInt32
  f : UInt32
  g : UInt32
  h : UInt32
deriving DecidableEq, Repr

namespace Words

def initial : Words :=
  ⟨0x6a09e667, 0xbb67ae85, 0x3c6ef372, 0xa54ff53a, 0x510e527f, 0x9b05688c, 0x1f83d9ab, 0x5be0cd19⟩

def add (x y : Words) : Words :=
  ⟨x.a + y.a, x.b + y.b, x.c + y.c, x.d + y.d, x.e + y.e, x.f + y.f, x.g + y.g, x.h + y.h⟩

def toList (x : Words) : List UInt32 := [x.a, x.b, x.c, x.d, x.e, x.f, x.g, x.h]

def octets (x : Words) : Bytes := x.toList.flatMap fun w => Bytes.bigEndian w.toNat 4

end Words

def roundConstants : List UInt32 :=
  [0x428a2f98, 0x71374491, 0xb5c0fbcf, 0xe9b5dba5, 0x3956c25b, 0x59f111f1, 0x923f82a4, 0xab1c5ed5,
   0xd807aa98, 0x12835b01, 0x243185be, 0x550c7dc3, 0x72be5d74, 0x80deb1fe, 0x9bdc06a7, 0xc19bf174,
   0xe49b69c1, 0xefbe4786, 0x0fc19dc6, 0x240ca1cc, 0x2de92c6f, 0x4a7484aa, 0x5cb0a9dc, 0x76f988da,
   0x983e5152, 0xa831c66d, 0xb00327c8, 0xbf597fc7, 0xc6e00bf3, 0xd5a79147, 0x06ca6351, 0x14292967,
   0x27b70a85, 0x2e1b2138, 0x4d2c6dfc, 0x53380d13, 0x650a7354, 0x766a0abb, 0x81c2c92e, 0x92722c85,
   0xa2bfe8a1, 0xa81a664b, 0xc24b8b70, 0xc76c51a3, 0xd192e819, 0xd6990624, 0xf40e3585, 0x106aa070,
   0x19a4c116, 0x1e376c08, 0x2748774c, 0x34b0bcb5, 0x391c0cb3, 0x4ed8aa4a, 0x5b9cca4f, 0x682e6ff3,
   0x748f82ee, 0x78a5636f, 0x84c87814, 0x8cc70208, 0x90befffa, 0xa4506ceb, 0xbef9a3f7, 0xc67178f2]

def rotateRight (x n : UInt32) : UInt32 := (x >>> n) ||| (x <<< (32 - n))

def bigSigma0 (x : UInt32) : UInt32 := rotateRight x 2 ^^^ rotateRight x 13 ^^^ rotateRight x 22

def bigSigma1 (x : UInt32) : UInt32 := rotateRight x 6 ^^^ rotateRight x 11 ^^^ rotateRight x 25

def smallSigma0 (x : UInt32) : UInt32 := rotateRight x 7 ^^^ rotateRight x 18 ^^^ (x >>> 3)

def smallSigma1 (x : UInt32) : UInt32 := rotateRight x 17 ^^^ rotateRight x 19 ^^^ (x >>> 10)

def choose (x y z : UInt32) : UInt32 := (x &&& y) ^^^ ((~~~x) &&& z)

def majority (x y z : UInt32) : UInt32 := (x &&& y) ^^^ (x &&& z) ^^^ (y &&& z)

def round (s : Words) (constant word : UInt32) : Words :=
  let t := s.h + bigSigma1 s.e + choose s.e s.f s.g + constant + word
  ⟨t + bigSigma0 s.a + majority s.a s.b s.c, s.a, s.b, s.c, s.d + t, s.e, s.f, s.g⟩

def wordsOf : Bytes → List UInt32
  | a :: b :: c :: d :: rest =>
    ((a.toUInt32 <<< 24) ||| (b.toUInt32 <<< 16) ||| (c.toUInt32 <<< 8) ||| d.toUInt32) :: wordsOf rest
  | _ => []

/-- Extends a schedule, newest word first, by `more` words. -/
def extendSchedule (schedule : List UInt32) : (more : Nat) → List UInt32
  | 0 => schedule
  | more + 1 =>
    let word := smallSigma1 (schedule.getD 1 0) + schedule.getD 6 0 + smallSigma0 (schedule.getD 14 0) +
      schedule.getD 15 0
    extendSchedule (word :: schedule) more

def schedule (block : Bytes) : List UInt32 := (extendSchedule (wordsOf block).reverse 48).reverse

def compress (s : Words) (block : Bytes) : Words :=
  s.add ((roundConstants.zip (schedule block)).foldl (fun s kw => round s kw.1 kw.2) s)

/-! ## Absorbing -/

structure Hasher where
  words : Words := .initial
  /-- The octets of the block that is not full yet, newest first. -/
  pending : Bytes := []
  count : Nat := 0
deriving DecidableEq, Repr

namespace Hasher

def push (h : Hasher) (b : UInt8) : Hasher :=
  if (h.count + 1) % 64 = 0 then
    { words := compress h.words (b :: h.pending).reverse, pending := [], count := h.count + 1 }
  else { h with pending := b :: h.pending, count := h.count + 1 }

def absorb (h : Hasher) (data : Bytes) : Hasher := data.foldl push h

/-- What follows a message of `count` octets so that it fills whole blocks: a single bit, zeros, and the length. -/
def padding (count : Nat) : Bytes :=
  0x80 :: List.replicate ((119 - count % 64) % 64) 0 ++ Bytes.bigEndian (8 * count) 8

def finish (h : Hasher) : Bytes := (h.absorb (padding h.count)).words.octets

theorem absorb_append (h : Hasher) (x y : Bytes) : h.absorb (x ++ y) = (h.absorb x).absorb y :=
  List.foldl_append

end Hasher

def digest (message : Bytes) : Bytes := (Hasher.absorb {} message).finish

end Firmware.Sha256
