import Mathlib.Data.List.Forall2
import Firmware.Image.Version
import Firmware.Proofs.Decimal
import Firmware.Proofs.Document
/-!
# Version — when texts sort as numbers do

Texts compare as the octets that spell them.  Runs of digits compare as the numbers that they write if they are equally
wide, and so do versions whose segments are, place by place.  Over all texts the comparison is a strict total order.
`sorts_as_numbers` is the main statement.
-/
namespace Firmware

/-! ## Texts and their octets -/

theorem lt_places {m n : Nat} (h : m < n) (hn : n < 2097152) :
    m / 262144 % 8 < n / 262144 % 8 ∨ m / 262144 % 8 = n / 262144 % 8 ∧
      (m / 4096 % 64 < n / 4096 % 64 ∨ m / 4096 % 64 = n / 4096 % 64 ∧
        (m / 64 % 64 < n / 64 % 64 ∨ m / 64 % 64 = n / 64 % 64 ∧ m % 64 < n % 64)) := by
  have hplace (m n : Nat) (h : m < n) : m / 64 < n / 64 ∨ m / 64 = n / 64 ∧ m % 64 < n % 64 := by omega
  rcases hplace m n h with hfirst | hsame
  · rcases hplace _ _ hfirst with hsecond | hsame
    · have hthird := hplace _ _ hsecond
      omega
    · omega
  · omega

theorem utf8EncodeChar_append_lt {c d : Char} (h : c < d) (more more' : Bytes) :
    String.utf8EncodeChar c ++ more < String.utf8EncodeChar d ++ more' := by
  have hlt : c.val.toNat < d.val.toNat := h
  have hbound : d.val.toNat < 2097152 := by
    rcases d.valid with hlow | hhigh
    · omega
    · omega
  have hoctet {k : Nat} (hk : k < 256) : (UInt8.ofNat k).toNat = k := UInt8.toNat_ofNat_of_lt' hk
  unfold String.utf8EncodeChar
  generalize c.val.toNat = m at *
  generalize d.val.toNat = n at *
  dsimp only
  by_cases hlong : m ≤ 65535
  · -- a longer code has a higher first octet, and of two equally long ones the higher has the higher places
    split_ifs <;>
      simp (disch := omega) only [List.cons_append, List.nil_append, List.cons_lt_cons_iff, UInt8.lt_iff_toNat_lt,
        hoctet, ← UInt8.toNat_inj] <;>
      omega
  · rw [if_neg (by omega), if_neg (by omega), if_neg hlong, if_neg (by omega), if_neg (by omega), if_neg (by omega)]
    simp (disch := omega) only [List.cons_append, List.nil_append, List.cons_lt_cons_iff, UInt8.lt_iff_toNat_lt, hoctet,
      ← UInt8.toNat_inj, Nat.add_lt_add_iff_right, Nat.add_right_cancel_iff]
    rcases lt_places hlt hbound with h | ⟨h₁, h | ⟨h₂, h | ⟨h₃, h⟩⟩⟩
    · exact .inl h
    · exact .inr ⟨h₁, .inl h⟩
    · exact .inr ⟨h₁, .inr ⟨h₂, .inl h⟩⟩
    · exact .inr ⟨h₁, .inr ⟨h₂, .inr ⟨h₃, .inl h⟩⟩⟩

theorem Bytes.ofText_lt_of_lt {s t : String} (h : s < t) : Bytes.ofText s < Bytes.ofText t := by
  rw [← String.ofList_toList (s := s), ← String.ofList_toList (s := t), ofText_ofList, ofText_ofList]
  replace h : s.toList < t.toList := h
  generalize s.toList = a at *
  generalize t.toList = b at *
  induction a generalizing b with
  | nil =>
    cases b with
    | nil => exact absurd h (List.lt_irrefl _)
    | cons d b =>
      obtain ⟨octet, more, hd⟩ := List.exists_cons_of_ne_nil (String.utf8EncodeChar_ne_nil (c := d))
      rw [List.flatMap_cons, hd]
      exact List.nil_lt_cons _ _
  | cons c a ih =>
    cases b with
    | nil => exact absurd h (List.not_lt_nil _)
    | cons d b =>
      rw [List.flatMap_cons, List.flatMap_cons]
      rcases List.cons_lt_cons_iff.1 h with hlt | ⟨rfl, hlt⟩
      · exact utf8EncodeChar_append_lt hlt _ _
      · exact List.append_left_lt (ih b hlt)

/-- **Texts compare as the octets that spell them.** -/
theorem Bytes.ofText_lt_iff {s t : String} : Bytes.ofText s < Bytes.ofText t ↔ s < t := by
  refine ⟨fun h => Decidable.byContradiction fun hnot => ?_, ofText_lt_of_lt⟩
  by_cases hlt : t < s
  · exact List.lt_asymm h (ofText_lt_of_lt hlt)
  · obtain rfl : s = t := String.le_antisymm hlt hnot
    exact List.lt_irrefl _ h

/-! ## Digits -/

namespace Decimal

variable {a b : List Char}

theorem place_lt_iff {p m n r s : Nat} (hr : r < p) (hs : s < p) :
    m * p + r < n * p + s ↔ m < n ∨ m = n ∧ r < s := by
  rcases Nat.lt_trichotomy m n with hlt | rfl | hlt
  · have hroom : (m + 1) * p ≤ n * p := Nat.mul_le_mul_right p hlt
    rw [Nat.add_mul] at hroom
    omega
  · omega
  · have hroom : (n + 1) * p ≤ m * p := Nat.mul_le_mul_right p hlt
    rw [Nat.add_mul] at hroom
    omega

theorem place_eq_iff {p m n r s : Nat} (hr : r < p) (hs : s < p) :
    m * p + r = n * p + s ↔ m = n ∧ r = s := by
  have hlt := place_lt_iff (m := m) (n := n) hr hs
  have hgt := place_lt_iff (m := n) (n := m) hs hr
  omega

theorem digit_lt_iff {c d : Char} (hc : c.isDigit = true) (hd : d.isDigit = true) :
    c < d ↔ c.toNat - '0'.toNat < d.toNat - '0'.toNat := by
  have hc' : '0'.toNat ≤ c.toNat := (isDigit_iff.1 hc).1
  have hd' : '0'.toNat ≤ d.toNat := (isDigit_iff.1 hd).1
  have hdef : c < d ↔ c.toNat < d.toNat := Iff.rfl
  rw [hdef]
  generalize '0'.toNat = base at *
  omega

theorem digit_eq_iff {c d : Char} (hc : c.isDigit = true) (hd : d.isDigit = true) :
    c = d ↔ c.toNat - '0'.toNat = d.toNat - '0'.toNat := by
  have hc' : '0'.toNat ≤ c.toNat := (isDigit_iff.1 hc).1
  have hd' : '0'.toNat ≤ d.toNat := (isDigit_iff.1 hd).1
  rw [← Char.toNat_inj]
  generalize '0'.toNat = base at *
  omega

/-- **Digits of one width compare as the numbers that they write**, and what follows them decides between equal ones. -/
theorem append_lt_append_iff (hwidth : a.length = b.length) (ha : ∀ c ∈ a, c.isDigit = true)
    (hb : ∀ c ∈ b, c.isDigit = true) (more more' : List Char) :
    a ++ more < b ++ more' ↔ worth a < worth b ∨ worth a = worth b ∧ more < more' := by
  induction a generalizing b with
  | nil =>
    obtain rfl := List.length_eq_zero_iff.1 hwidth.symm
    simp [worth]
  | cons c a ih =>
    obtain _ | ⟨d, b⟩ := b
    · cases hwidth
    obtain ⟨hc, ha⟩ := List.forall_mem_cons.1 ha
    obtain ⟨hd, hb⟩ := List.forall_mem_cons.1 hb
    have hwidth : a.length = b.length := Nat.succ.inj hwidth
    have hrest := worth_lt hb
    rw [← hwidth] at hrest
    rw [List.cons_append, List.cons_append, List.cons_lt_cons_iff, ih hwidth ha hb, worth, worth, ← hwidth,
      place_lt_iff (worth_lt ha) hrest, place_eq_iff (worth_lt ha) hrest, digit_lt_iff hc hd, digit_eq_iff hc hd]
    rw [and_or_left, or_assoc, and_assoc]

end Decimal

/-! ## Versions -/

namespace VersionOrder

variable {running offered : String}

def segments (version : String) : List (List Char) := version.toList.splitOn '.'

def numbers (version : String) : List Nat := (segments version).map Decimal.worth

/-- Runs of digits of one width. -/
structure Alike (a b : List Char) : Prop where
  width : a.length = b.length
  left : ∀ c ∈ a, c.isDigit = true
  right : ∀ c ∈ b, c.isDigit = true

/-- The versions have segments of digits, as many the one as the other, and each as wide as the one in its place. -/
def Aligned (running offered : String) : Prop := List.Forall₂ Alike (segments running) (segments offered)

theorem Alike.symm {a b : List Char} (h : Alike a b) : Alike b a := ⟨h.width.symm, h.right, h.left⟩

theorem Aligned.symm (h : Aligned running offered) : Aligned offered running :=
  List.Forall₂.flip (h.imp fun _ _ => Alike.symm)

theorem intercalate_lt_iff {as bs : List (List Char)} (h : List.Forall₂ Alike as bs) :
    ['.'].intercalate as < ['.'].intercalate bs ↔ as.map Decimal.worth < bs.map Decimal.worth := by
  induction h with
  | nil => simp
  | @cons a b as bs hab h ih =>
    have hfirst := Decimal.append_lt_append_iff hab.width hab.left hab.right
    rw [List.map_cons, List.map_cons, List.cons_lt_cons_iff]
    cases h with
    | nil =>
      have hwhole := hfirst [] []
      simpa using hwhole
    | cons _ _ =>
      rw [List.intercalate_cons_cons, List.intercalate_cons_cons, List.append_assoc, List.append_assoc, hfirst, ← ih,
        List.singleton_append, List.singleton_append, List.cons_lt_cons_iff]
      simp

/-- **Aligned versions sort as their numbers do.** -/
theorem Aligned.lt_iff (h : Aligned running offered) : running < offered ↔ numbers running < numbers offered := by
  have hparts (version : String) : ['.'].intercalate (segments version) = version.toList := List.intercalate_splitOn '.'
  have htext : running < offered ↔ running.toList < offered.toList := Iff.rfl
  rw [htext, ← hparts, ← hparts]
  exact intercalate_lt_iff h

theorem Aligned.eq_iff (h : Aligned running offered) : running = offered ↔ numbers running = numbers offered := by
  constructor
  · rintro rfl
    rfl
  · intro heq
    refine String.le_antisymm (fun hlt => ?_) (fun hlt => ?_)
    · rw [h.symm.lt_iff, heq] at hlt
      exact List.lt_irrefl _ hlt
    · rw [h.lt_iff, heq] at hlt
      exact List.lt_irrefl _ hlt

/-! ## The gate -/

theorem ofOffer_eq_same_iff : ofOffer running offered = .same ↔ running = offered := by
  unfold ofOffer
  by_cases hsame : offered = running
  · simp [hsame]
  · rw [if_neg hsame]
    split <;> simp [Ne.symm hsame]

theorem ofOffer_eq_rollback_iff : ofOffer running offered = .rollback ↔ offered < running := by
  unfold ofOffer
  by_cases hsame : offered = running
  · subst hsame
    rw [if_pos rfl]
    exact iff_of_false nofun (String.lt_irrefl _)
  · rw [if_neg hsame]
    by_cases hbelow : offered < running <;> simp [hbelow]

theorem ofOffer_eq_upgrade_iff : ofOffer running offered = .upgrade ↔ running < offered := by
  unfold ofOffer
  by_cases hsame : offered = running
  · subst hsame
    rw [if_pos rfl]
    exact iff_of_false nofun (String.lt_irrefl _)
  · rw [if_neg hsame]
    by_cases hbelow : offered < running
    · rw [if_pos hbelow]
      exact iff_of_false nofun (String.lt_asymm hbelow)
    · have habove : running < offered := Decidable.byContradiction fun hnot => hsame (String.le_antisymm hnot hbelow)
      rw [if_neg hbelow]
      exact iff_of_true rfl habove

/-- **The gate sorts versions as numbers where their widths allow it, and all texts in a strict total order.**  An offer
of aligned segments is above, the same as or below the running version as its numbers are, the first that differ
deciding.  Whatever the texts, an offer is above exactly if its octets sort above; no version is above itself, one is
above another exactly if that one is below it, and of two different versions one is above the other. -/
theorem sorts_as_numbers :
    (∀ running offered, Aligned running offered →
      (ofOffer running offered = .upgrade ↔ numbers running < numbers offered) ∧
      (ofOffer running offered = .same ↔ numbers running = numbers offered) ∧
      (ofOffer running offered = .rollback ↔ numbers offered < numbers running)) ∧
    (∀ running offered, ofOffer running offered = .upgrade ↔ Bytes.ofText running < Bytes.ofText offered) ∧
    (∀ running offered, ofOffer running offered = .same ↔ running = offered) ∧
    (∀ v, ofOffer v v ≠ .upgrade) ∧
    (∀ v w, ofOffer v w = .upgrade ↔ ofOffer w v = .rollback) ∧
    (∀ u v w, ofOffer u v = .upgrade → ofOffer v w = .upgrade → ofOffer u w = .upgrade) ∧
    ∀ v w, ofOffer v w = .upgrade ∨ ofOffer v w = .same ∨ ofOffer w v = .upgrade := by
  simp only [ne_eq, ofOffer_eq_upgrade_iff, ofOffer_eq_same_iff, ofOffer_eq_rollback_iff, implies_true, true_and]
  refine ⟨fun running offered h => ⟨h.lt_iff, h.eq_iff, h.symm.lt_iff⟩, fun _ _ => Bytes.ofText_lt_iff.symm,
    String.lt_irrefl, fun _ _ _ => String.lt_trans, fun v w => ?_⟩
  by_cases hbelow : w < v
  · exact .inr (.inr hbelow)
  by_cases habove : v < w
  · exact .inl habove
  · exact .inr (.inl (String.le_antisymm hbelow habove))

theorem ninth_tenth_aligned : Aligned "01.00.09" "01.00.10" := by
  have hninth : segments "01.00.09" = [['0', '1'], ['0', '0'], ['0', '9']] := by decide +kernel
  have htenth : segments "01.00.10" = [['0', '1'], ['0', '0'], ['1', '0']] := by decide +kernel
  rw [Aligned, hninth, htenth]
  exact .cons ⟨rfl, by simp, by simp⟩ (.cons ⟨rfl, by simp, by simp⟩ (.cons ⟨rfl, by simp, by simp⟩ .nil))

theorem ninth_tenth_sorts_as_numbers :
    Aligned "01.00.09" "01.00.10" ∧ ofOffer "01.00.09" "01.00.10" = .upgrade := by
  have hnumbers : numbers "01.00.09" < numbers "01.00.10" := by decide +kernel
  exact ⟨ninth_tenth_aligned, (sorts_as_numbers.1 _ _ ninth_tenth_aligned).1.2 hnumbers⟩

/-- Without a common width the digits decide. -/
example : ofOffer "1.9.0" "1.10.0" = .rollback := by decide

end VersionOrder
end Firmware
