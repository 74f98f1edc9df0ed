import Firmware.Bytes
/-!
# Bounded — texts of at most so many octets

Every field that the device keeps has a fixed room, counted in UTF-8 octets.  A `Bounded n` is a text that fits into
`n` octets.  `Bounded.ofText?` refuses what does not fit; `Bounded.pour` takes characters until one does not fit and
drops the rest; `Bounded.fill` takes whole parts in the same way.
-/
namespace Firmware

/-- A text of at most `limit` UTF-8 octets. -/
structure Bounded (limit : Nat) where
  text : String
  fits : text.utf8ByteSize ≤ limit
deriving DecidableEq

namespace Bounded

variable {limit : Nat}

def ofText? (limit : Nat) (s : String) : Option (Bounded limit) :=
  if h : s.utf8ByteSize ≤ limit then some ⟨s, h⟩ else none

def empty : Bounded limit := ⟨"", by simp⟩

instance : Inhabited (Bounded limit) := ⟨empty⟩

def isEmpty (t : Bounded limit) : Bool := t.text.isEmpty

def push? (t : Bounded limit) (c : Char) : Option (Bounded limit) := ofText? limit (t.text.push c)

/-- Takes characters until one does not fit; that one and all after it are dropped. -/
def pour (t : Bounded limit) : List Char → Bounded limit
  | [] => t
  | c :: cs =>
    match t.push? c with
    | some t' => t'.pour cs
    | none => t

/-- Pours one part after the other.  A part that was cut short does not stop the parts after it. -/
def ofParts (limit : Nat) (parts : List String) : Bounded limit :=
  parts.foldl (fun t part => t.pour part.toList) empty

/-- Takes parts, each of them whole, until one does not fit; that one and all after it are dropped. -/
def fill (t : Bounded limit) : List String → Bounded limit
  | [] => t
  | part :: parts =>
    match ofText? limit (t.text ++ part) with
    | some t' => t'.fill parts
    | none => t

theorem text_inj {t u : Bounded limit} : t.text = u.text ↔ t = u := by
  cases t
  cases u
  simp

theorem ofText?_text (t : Bounded limit) : ofText? limit t.text = some t := by
  simp [ofText?, t.fits]

theorem ofText?_eq_some {s : String} {t : Bounded limit} : ofText? limit s = some t ↔ t.text = s := by
  constructor
  · intro h
    unfold ofText? at h
    split at h
    · cases h; rfl
    · cases h
  · rintro rfl
    exact ofText?_text t

theorem ofText?_eq_none {s : String} : ofText? limit s = none ↔ limit < s.utf8ByteSize := by
  unfold ofText?
  split
  · simp; omega
  · simp; omega

/-- **Parts that fit together are taken one and all.** -/
theorem text_fill_of_fits {t : Bounded limit} {parts : List String}
    (h : t.text.utf8ByteSize + (String.join parts).utf8ByteSize ≤ limit) :
    (t.fill parts).text = t.text ++ String.join parts := by
  induction parts generalizing t with
  | nil => simp [fill]
  | cons part parts ih =>
    rw [String.join_cons, String.utf8ByteSize_append] at h
    have hpart : (t.text ++ part).utf8ByteSize ≤ limit := by
      rw [String.utf8ByteSize_append]
      omega
    have hstep : ofText? limit (t.text ++ part) = some ⟨t.text ++ part, hpart⟩ := ofText?_eq_some.2 rfl
    rw [fill, hstep]
    simp only
    rw [ih (by rw [String.utf8ByteSize_append]; omega), String.join_cons, String.append_assoc]

end Bounded
end Firmware
