import Firmware.Message.Inbound
import Firmware.Proofs.Size
/-!
# Digits — which texts are read as octets

Two characters are read as an octet if both are digits, and also if the first is a plus sign and the second a digit; the
octet is then that digit's value.  So more texts are read than spell octets digit by digit, and a plus sign is what
tells them apart (`Hex.spells_iff`).  A digest is read from any text that is so read as 32 octets
(`ImageDigest.ofHex?_eq_some_iff`).
-/
namespace Firmware
namespace Hex

/-! ## One digit -/

theorem toNat_le_of_digit? {c : Char} {n : Nat} (h : digit? c = some n) : c.toNat ≤ 102 := by
  simp only [digit?, Char.le_def, UInt32.le_iff_toNat_le] at h
  split at h
  · rename_i hdigit
    exact Nat.le_trans hdigit.2 (by decide)
  split at h
  · rename_i hlower
    exact hlower.2
  split at h
  · rename_i hupper
    exact Nat.le_trans hupper.2 (by decide)
  · cases h

theorem digit?_eq_some_iff {c : Char} {n : Nat} : digit? c = some n ↔ IsDigit n c := by
  have all : ∀ k < 103, ∀ n ∈ digit? (Char.ofNat k), IsDigit n (Char.ofNat k) := by decide
  constructor
  · intro h
    have hc := all c.toNat (Nat.lt_succ_of_le (toNat_le_of_digit? h)) n
    rw [Char.ofNat_toNat] at hc
    exact hc h
  · exact IsDigit.digit?_eq

theorem IsDigit.ne_plus {n : Nat} {c : Char} (h : IsDigit n c) : c ≠ '+' := by
  rintro rfl
  have hnone : digit? '+' = none := by decide
  rw [h.digit?_eq] at hnone
  cases hnone

theorem IsDigit.utf8Size_eq {n : Nat} {c : Char} (h : IsDigit n c) : c.utf8Size = 1 := by
  have all : ∀ n < 16, (Nat.digitChar n).utf8Size = 1 ∧ (Nat.digitChar n).toUpper.utf8Size = 1 := by decide
  obtain ⟨hn, rfl | rfl⟩ := h
  · exact (all n hn).1
  · exact (all n hn).2

theorem IsDigit.toLower_eq {n : Nat} {c : Char} (h : IsDigit n c) : c.toLower = Nat.digitChar n := by
  have all : ∀ n < 16, (Nat.digitChar n).toLower = Nat.digitChar n ∧
      (Nat.digitChar n).toUpper.toLower = Nat.digitChar n := by decide
  obtain ⟨hn, rfl | rfl⟩ := h
  · exact (all n hn).1
  · exact (all n hn).2

theorem isDigit_digitChar {n : Nat} (hn : n < 16) : IsDigit n (Nat.digitChar n) := ⟨hn, .inl rfl⟩

/-! ## Texts that are read -/

/-- The characters are read as the octets, each from two digits or from a plus sign and a digit. -/
inductive Reads : Bytes → List Char → Prop where
  | nil : Reads [] []
  | digits {b : UInt8} {bs : Bytes} {high low : Char} {cs : List Char} (hh : IsDigit (b.toNat / 16) high)
    (hl : IsDigit (b.toNat % 16) low) (h : Reads bs cs) : Reads (b :: bs) (high :: low :: cs)
  | signed {b : UInt8} {bs : Bytes} {low : Char} {cs : List Char} (hl : IsDigit b.toNat low) (h : Reads bs cs) :
    Reads (b :: bs) ('+' :: low :: cs)

variable {bs : Bytes} {cs : List Char}

theorem octet?_eq_some_iff {b : UInt8} {high low : Char} :
    octet? high low = some b ↔
      (IsDigit (b.toNat / 16) high ∧ IsDigit (b.toNat % 16) low) ∨ (high = '+' ∧ IsDigit b.toNat low) := by
  constructor
  · intro h
    simp only [octet?, Option.bind_eq_bind, Option.bind_eq_some_iff, digit?_eq_some_iff] at h
    obtain ⟨l, hlow, h⟩ := h
    have hl : l < 16 := hlow.1
    split at h
    · rename_i hsign
      cases h
      have hvalue : (UInt8.ofNat l).toNat = l := by
        rw [UInt8.toNat_ofNat']
        omega
      refine .inr ⟨hsign, ?_⟩
      rwa [hvalue]
    · simp only [Option.bind_eq_some_iff, digit?_eq_some_iff] at h
      obtain ⟨k, hhigh, h⟩ := h
      cases h
      have hk : k < 16 := hhigh.1
      have hvalue : (UInt8.ofNat (16 * k + l)).toNat = 16 * k + l := by
        rw [UInt8.toNat_ofNat']
        omega
      have hquotient : (16 * k + l) / 16 = k := by omega
      have hremainder : (16 * k + l) % 16 = l := by omega
      refine .inl ?_
      rw [hvalue, hquotient, hremainder]
      exact ⟨hhigh, hlow⟩
  · rintro (⟨hhigh, hlow⟩ | ⟨rfl, hlow⟩)
    · exact octet?_of_isDigit hhigh hlow
    · simp [octet?, hlow.digit?_eq]

/-- **The texts that are read as octets.** -/
theorem octets?_eq_some_iff : octets? cs = some bs ↔ Reads bs cs := by
  constructor
  · intro h
    fun_induction octets? cs generalizing bs with
    | case1 =>
      cases h
      exact .nil
    | case2 => cases h
    | case3 high low cs ih =>
      simp only [Option.bind_eq_bind, Option.bind_eq_some_iff, octet?_eq_some_iff] at h
      obtain ⟨b, hb, bs', hbs, h⟩ := h
      cases h
      rcases hb with ⟨hhigh, hlow⟩ | ⟨rfl, hlow⟩
      · exact .digits hhigh hlow (ih hbs)
      · exact .signed hlow (ih hbs)
  · intro h
    induction h with
    | nil => rfl
    | digits hh hl _ ih => simp [octets?, octet?_eq_some_iff.2 (.inl ⟨hh, hl⟩), ih]
    | signed hl _ ih => simp [octets?, octet?_eq_some_iff.2 (.inr ⟨rfl, hl⟩), ih]

theorem Reads.length_eq (h : Reads bs cs) : cs.length = 2 * bs.length := by
  induction h with
  | nil => rfl
  | digits _ _ _ ih | signed _ _ ih =>
    simp only [List.length_cons, ih]
    omega

theorem Reads.utf8Size_eq (h : Reads bs cs) : ∀ c ∈ cs, c.utf8Size = 1 := by
  induction h with
  | nil => simp
  | digits hh hl _ ih => simpa [hh.utf8Size_eq, hl.utf8Size_eq] using ih
  | signed hl _ ih =>
    have hplus : '+'.utf8Size = 1 := by decide
    simpa [hplus, hl.utf8Size_eq] using ih

/-! ## Texts that spell -/

/-- **A text that is read spells the octets digit by digit exactly if no plus sign stands in it.** -/
theorem spells_iff : Spells bs cs ↔ Reads bs cs ∧ '+' ∉ cs := by
  constructor
  · intro h
    induction h with
    | nil => exact ⟨.nil, by simp⟩
    | cons hh hl _ ih =>
      obtain ⟨hreads, hplus⟩ := ih
      exact ⟨.digits hh hl hreads, by simp [hh.ne_plus.symm, hl.ne_plus.symm, hplus]⟩
  · rintro ⟨h, hplus⟩
    induction h with
    | nil => exact .nil
    | digits hh hl _ ih => exact .cons hh hl (ih fun hmem => hplus (by simp [hmem]))
    | signed => exact absurd (by simp) hplus

theorem spells_octets (bs : Bytes) : Spells bs (bs.flatMap octet) := by
  induction bs with
  | nil => exact .nil
  | cons b bs ih =>
    have hb : b.toNat < 256 := b.toNat_lt
    exact .cons (isDigit_digitChar (by omega)) (isDigit_digitChar (by omega)) ih

theorem Spells.map_toLower (h : Spells bs cs) : cs.map Char.toLower = bs.flatMap octet := by
  induction h with
  | nil => rfl
  | cons hh hl _ ih => simp [hh.toLower_eq, hl.toLower_eq, octet, ih]

end Hex

namespace ImageDigest

variable {digest : ImageDigest} {hex : String}

/-- **The texts that are read as a digest.** -/
theorem ofHex?_eq_some_iff : ofHex? hex = some digest ↔ Hex.Reads digest.octets hex.toList := by
  constructor
  · intro h
    unfold ofHex? at h
    split at h
    · split at h
      · rename_i octets hoctets
        split at h
        · cases h
          exact Hex.octets?_eq_some_iff.1 hoctets
        · cases h
      · cases h
    · cases h
  · intro h
    have hsize : hex.utf8ByteSize = 64 := by
      have hlength := utf8ByteSize_ofList_of_utf8Size h.utf8Size_eq
      rw [String.ofList_toList, h.length_eq, digest.size_eq] at hlength
      exact hlength
    simp [ofHex?, hsize, Hex.octets?_eq_some_iff.2 h, digest.size_eq]

theorem ofHex?_of_spells (h : Hex.Spells digest.octets hex.toList) : ofHex? hex = some digest :=
  ofHex?_eq_some_iff.2 (Hex.spells_iff.1 h).1

/-- **A digest that is written reads back.** -/
theorem ofHex?_text (digest : ImageDigest) : ofHex? (Hex.text digest.octets) = some digest := by
  refine ofHex?_of_spells ?_
  rw [Hex.text, String.toList_ofList]
  exact Hex.spells_octets digest.octets

/-- **A text that is read as a digest is what is written of it, but for the case of its digits, exactly if no plus sign
stands in it.** -/
theorem text_eq_toLower_iff (h : ofHex? hex = some digest) :
    Hex.text digest.octets = hex.toLower ↔ '+' ∉ hex.toList := by
  have hlower : hex.toLower.toList = hex.toList.map Char.toLower := String.toList_map
  rw [← String.toList_inj, hlower, Hex.text, String.toList_ofList]
  constructor
  · intro heq hplus
    have hmem : '+' ∈ hex.toList.map Char.toLower := List.mem_map.2 ⟨'+', hplus, rfl⟩
    rw [← heq] at hmem
    exact (Hex.spells_iff.1 (Hex.spells_octets digest.octets)).2 hmem
  · intro hplus
    exact (Hex.spells_iff.2 ⟨ofHex?_eq_some_iff.1 h, hplus⟩).map_toLower.symm

end ImageDigest
end Firmware
