/-!
# Scan — cutting and comparing runs of characters

The small readers of this library work on lists of characters.  Here are the cuts they share: at the first occurrence
of a separator, at line ends, at blanks; and the comparison of names that ignores the case of ASCII letters.
-/
namespace Firmware.Scan

/-- Splits at the first occurrence of `sep`: what stands before it, and what follows it. -/
def splitOnce (sep : List Char) : List Char → Option (List Char × List Char)
  | [] => none
  | c :: cs =>
    if sep.isPrefixOf (c :: cs) then some ([], (c :: cs).drop sep.length)
    else (splitOnce sep cs).map fun (before, after) => (c :: before, after)

/-- The lines of a text whose lines end in CR LF.  There is always one, and no CR LF is left in any. -/
def crlfLines : List Char → List (List Char)
  | [] => [[]]
  | '\r' :: '\n' :: rest => [] :: crlfLines rest
  | c :: rest =>
    match crlfLines rest with
    | line :: more => (c :: line) :: more
    | [] => [[c]]

def dropFinalCrlf (cs : List Char) : List Char :=
  go cs.reverse
where
  /-- The same on the reversed text, where a line end reads LF CR. -/
  go : List Char → List Char
    | '\n' :: '\r' :: rest => go rest
    | rest => rest.reverse

/-- The code points of Unicode's property White_Space. -/
def isBlank (c : Char) : Bool :=
  let n := c.toNat
  (0x09 ≤ n && n ≤ 0x0D) || n == 0x20 || n == 0x85 || n == 0xA0 || n == 0x1680 || (0x2000 ≤ n && n ≤ 0x200A) ||
    n == 0x2028 || n == 0x2029 || n == 0x202F || n == 0x205F || n == 0x3000

def trim (cs : List Char) : List Char :=
  ((cs.dropWhile isBlank).reverse.dropWhile isBlank).reverse

def words (cs : List Char) : List (List Char) :=
  (cs.splitOnP isBlank).filter (fun w => !w.isEmpty)

/-- Equal up to the case of ASCII letters; every other character counts as it stands. -/
def sameName (a b : List Char) : Bool := a.map Char.toLower == b.map Char.toLower

/-- **A split loses nothing**: the two halves and the separator are the text. -/
theorem eq_of_splitOnce {sep cs before after : List Char} (h : splitOnce sep cs = some (before, after)) :
    cs = before ++ sep ++ after := by
  induction cs generalizing before after with
  | nil => simp [splitOnce] at h
  | cons c cs ih =>
    unfold splitOnce at h
    split at h
    · rename_i hp
      obtain ⟨rest, hr⟩ := List.isPrefixOf_iff_prefix.1 hp
      rw [← hr] at h ⊢
      simp only [List.drop_left, Option.some.injEq, Prod.mk.injEq] at h
      obtain ⟨rfl, rfl⟩ := h
      rfl
    · simp only [Option.map_eq_some_iff, Prod.mk.injEq] at h
      obtain ⟨⟨b, a⟩, hs, rfl, rfl⟩ := h
      simp [ih hs]

end Firmware.Scan
