/-!
# Bytes — octet strings and their UTF-8 reading

Everything that arrives or leaves over a wire, and every block written to flash, is a list of octets.  `Bytes.ofText`
spells a text in UTF-8; `Bytes.text?` reads it back and refuses octets that spell no text.
-/
namespace Firmware

abbrev Bytes := List UInt8

def Bytes.ofText (s : String) : Bytes := s.toByteArray.data.toList

def Bytes.text? (b : Bytes) : Option String := String.fromUTF8? b.toByteArray

/-- The low `width` octets of `n`, most significant first. -/
def Bytes.bigEndian (n : Nat) : (width : Nat) → Bytes
  | 0 => []
  | width + 1 => UInt8.ofNat (n >>> (8 * width)) :: Bytes.bigEndian n width

theorem Bytes.text?_ofText (s : String) : (Bytes.ofText s).text? = some s := by
  have h : (Bytes.ofText s).toByteArray = s.toByteArray := by
    apply ByteArray.ext
    simp [ofText]
  unfold text?
  rw [h]
  simp [String.fromUTF8?, String.fromUTF8, s.isValidUTF8]

/-- **A text is read from the octets that spell it**, and from no others. -/
theorem Bytes.text?_eq_some_iff {b : Bytes} {s : String} : b.text? = some s ↔ Bytes.ofText s = b := by
  constructor
  · intro h
    unfold text? String.fromUTF8? at h
    split at h
    · cases h
      simp [ofText, String.fromUTF8]
    · cases h
  · rintro rfl
    exact text?_ofText s

end Firmware
