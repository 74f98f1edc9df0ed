import Firmware.Message.Ack
import Firmware.Proofs.Size
/-!
# Truncation — how far a message reaches

A text that is poured into its room is cut where the first character does not fit; that is its longest front that fits
(`Bounded.truncate_isTruncation`).  A message is poured in parts, and each part is cut on its own: after a character of
several octets was dropped there may be room for the first character of a later part.  So the message is the longest
front of the whole text exactly if no later part begins with a character that fits there
(`Ack.message_truncated_iff`); with characters of one octet that cannot happen.
-/
namespace Firmware
namespace Bounded

variable {limit : Nat}

/-! ## Fronts -/

/-- The longest front of a text that fits into so many octets. -/
structure IsTruncation (limit : Nat) (full cut : String) : Prop where
  front : ∃ rest, full = cut ++ rest
  fits : cut.utf8ByteSize ≤ limit
  longest : ∀ other rest, full = other ++ rest → other.utf8ByteSize ≤ limit → other.utf8ByteSize ≤ cut.utf8ByteSize

theorem front_cases {a b rest rest' : String} (h : a ++ rest = b ++ rest') :
    (∃ more, b = a ++ more ∧ rest = more ++ rest') ∨ ∃ more, a = b ++ more ∧ rest' = more ++ rest := by
  have hlists : a.toList ++ rest.toList = b.toList ++ rest'.toList := by
    rw [← String.toList_append, h, String.toList_append]
  rcases List.append_eq_append_iff.1 hlists with ⟨more, hb, hrest⟩ | ⟨more, ha, hrest⟩
  · refine .inl ⟨String.ofList more, ?_, ?_⟩ <;> apply String.ext <;> simpa
  · refine .inr ⟨String.ofList more, ?_, ?_⟩ <;> apply String.ext <;> simpa

theorem utf8ByteSize_ofList_cons (c : Char) (cs : List Char) :
    (String.ofList (c :: cs)).utf8ByteSize = c.utf8Size + (String.ofList cs).utf8ByteSize := by
  rw [String.ofList_cons, String.utf8ByteSize_append, String.utf8ByteSize_singleton]

theorem empty_or_begins (s : String) : s = "" ∨ ∃ c, s.toList.head? = some c ∧ c.utf8Size ≤ s.utf8ByteSize := by
  cases hchars : s.toList with
  | nil => exact .inl (String.toList_eq_nil_iff.1 hchars)
  | cons c cs =>
    refine .inr ⟨c, rfl, ?_⟩
    rw [← String.ofList_toList (s := s), hchars, utf8ByteSize_ofList_cons]
    exact Nat.le_add_right _ _

theorem IsTruncation.unique {full a b : String} (ha : IsTruncation limit full a) (hb : IsTruncation limit full b) :
    a = b := by
  obtain ⟨rest, hfull⟩ := ha.front
  obtain ⟨rest', hfull'⟩ := hb.front
  have hle := hb.longest a rest hfull ha.fits
  have hge := ha.longest b rest' hfull' hb.fits
  have hnothing : ∀ more : String, more.utf8ByteSize = 0 → more = "" := fun _ => String.utf8ByteSize_eq_zero_iff.1
  rcases front_cases (hfull.symm.trans hfull') with ⟨more, rfl, -⟩ | ⟨more, rfl, -⟩
  · rw [String.utf8ByteSize_append] at hle hge
    rw [hnothing more (by omega), String.append_empty]
  · rw [String.utf8ByteSize_append] at hle hge
    rw [hnothing more (by omega), String.append_empty]

/-! ## Pouring -/

theorem pour_cons_of_le {t : Bounded limit} {c : Char} (h : t.text.utf8ByteSize + c.utf8Size ≤ limit) :
    ∃ t' : Bounded limit, t'.text = t.text.push c ∧ ∀ cs, t.pour (c :: cs) = t'.pour cs := by
  have hfits : (t.text.push c).utf8ByteSize ≤ limit := by rwa [String.utf8ByteSize_push]
  refine ⟨⟨t.text.push c, hfits⟩, rfl, fun cs => ?_⟩
  have hpush : t.push? c = some ⟨t.text.push c, hfits⟩ := ofText?_eq_some.2 rfl
  rw [pour, hpush]

theorem pour_cons_of_lt {t : Bounded limit} {c : Char} (h : limit < t.text.utf8ByteSize + c.utf8Size)
    (cs : List Char) : t.pour (c :: cs) = t := by
  have hpush : t.push? c = none := by
    rw [push?, ofText?_eq_none, String.utf8ByteSize_push]
    exact h
  rw [pour, hpush]

theorem exists_pour_eq (t : Bounded limit) (cs : List Char) :
    ∃ taken rest, cs = taken ++ rest ∧ (t.pour cs).text = t.text ++ String.ofList taken ∧
      ∀ c ∈ rest.head?, limit < (t.pour cs).text.utf8ByteSize + c.utf8Size := by
  induction cs generalizing t with
  | nil => exact ⟨[], [], rfl, by simp [pour], by simp⟩
  | cons c cs ih =>
    by_cases hc : t.text.utf8ByteSize + c.utf8Size ≤ limit
    · obtain ⟨t', htext, hpour⟩ := pour_cons_of_le hc
      obtain ⟨taken, rest, rfl, htaken, hnext⟩ := ih t'
      refine ⟨c :: taken, rest, rfl, ?_, ?_⟩
      · rw [hpour, htaken, htext, String.ofList_cons, String.push_eq_append, String.append_assoc]
      · rwa [hpour]
    · have hpour := pour_cons_of_lt (Nat.lt_of_not_le hc) cs
      refine ⟨[], c :: cs, rfl, by simp [hpour], fun c' hc' => ?_⟩
      cases hc'
      rw [hpour]
      exact Nat.lt_of_not_le hc

/-- **What was poured is a front of the text, and the character after it does not fit.** -/
theorem pour_spec (t : Bounded limit) (s : String) :
    ∃ taken rest, s = taken ++ rest ∧ (t.pour s.toList).text = t.text ++ taken ∧
      ∀ c, rest.toList.head? = some c → limit < (t.pour s.toList).text.utf8ByteSize + c.utf8Size := by
  obtain ⟨taken, rest, hsplit, htext, hnext⟩ := t.exists_pour_eq s.toList
  refine ⟨String.ofList taken, String.ofList rest, ?_, htext, fun c hc => hnext c ?_⟩
  · rw [← String.ofList_append, ← hsplit, String.ofList_toList]
  · rwa [String.toList_ofList] at hc

theorem size_le_pour (t : Bounded limit) (cs : List Char) :
    t.text.utf8ByteSize ≤ (t.pour cs).text.utf8ByteSize := by
  obtain ⟨taken, -, -, htext, -⟩ := t.exists_pour_eq cs
  rw [htext, String.utf8ByteSize_append]
  exact Nat.le_add_right _ _

theorem pour_of_fits {t : Bounded limit} {s : String} (h : t.text.utf8ByteSize + s.utf8ByteSize ≤ limit) :
    (t.pour s.toList).text = t.text ++ s := by
  obtain ⟨taken, rest, hsplit, htext, hnext⟩ := t.pour_spec s
  rcases empty_or_begins rest with rfl | ⟨c, hhead, hsize⟩
  · rw [htext, hsplit, String.append_empty]
  · have hc := hnext c hhead
    rw [htext, String.utf8ByteSize_append] at hc
    rw [hsplit, String.utf8ByteSize_append] at h
    omega

theorem pour_append (t : Bounded limit) (cs ds : List Char) :
    t.pour (cs ++ ds) =
      if t.text.utf8ByteSize + (String.ofList cs).utf8ByteSize ≤ limit then (t.pour cs).pour ds else t.pour cs := by
  induction cs generalizing t with
  | nil => simp [pour, t.fits]
  | cons c cs ih =>
    rw [List.cons_append, utf8ByteSize_ofList_cons, ← Nat.add_assoc]
    by_cases hc : t.text.utf8ByteSize + c.utf8Size ≤ limit
    · obtain ⟨t', htext, hpour⟩ := pour_cons_of_le hc
      rw [hpour, hpour, ih, htext, String.utf8ByteSize_push]
    · have hlt := Nat.lt_of_not_le hc
      rw [pour_cons_of_lt hlt, pour_cons_of_lt hlt, if_neg (by omega)]

theorem pour_eq_self_iff (t : Bounded limit) (cs : List Char) :
    t.pour cs = t ↔ ∀ c ∈ cs.head?, limit < t.text.utf8ByteSize + c.utf8Size := by
  cases cs with
  | nil => simp [pour]
  | cons c cs =>
    by_cases hc : t.text.utf8ByteSize + c.utf8Size ≤ limit
    · obtain ⟨t', htext, hpour⟩ := pour_cons_of_le hc
      have hgrows : t.text.utf8ByteSize < (t'.pour cs).text.utf8ByteSize := by
        have hle := t'.size_le_pour cs
        have hpos := c.utf8Size_pos
        rw [htext, String.utf8ByteSize_push] at hle
        omega
      rw [hpour]
      constructor
      · intro heq
        rw [heq] at hgrows
        exact absurd hgrows (Nat.lt_irrefl _)
      · intro hlt
        exact absurd (hlt c rfl) (Nat.not_lt.2 hc)
    · have hlt := Nat.lt_of_not_le hc
      simp [pour_cons_of_lt hlt, hlt]

/-! ## One text -/

def truncate (limit : Nat) (s : String) : Bounded limit := empty.pour s.toList

theorem truncate_isTruncation (limit : Nat) (s : String) : IsTruncation limit s (truncate limit s).text := by
  obtain ⟨taken, rest, hsplit, htext, hnext⟩ := (empty : Bounded limit).pour_spec s
  have hcut : (truncate limit s).text = taken := by
    rw [truncate, htext, empty, String.empty_append]
  have hs : s = (truncate limit s).text ++ rest := by rw [hcut, ← hsplit]
  refine ⟨⟨rest, hs⟩, (truncate limit s).fits, fun other more hother hfits => ?_⟩
  rcases front_cases (hs.symm.trans hother) with ⟨middle, rfl, rfl⟩ | ⟨middle, hmiddle, -⟩
  · rw [String.utf8ByteSize_append] at hfits ⊢
    rcases empty_or_begins middle with rfl | ⟨c, hhead, hsize⟩
    · rw [String.utf8ByteSize_empty]
      exact Nat.le_refl _
    · -- a longer front would hold the character that does not fit
      have hc : limit < (truncate limit s).text.utf8ByteSize + c.utf8Size :=
        hnext c (by rw [String.toList_append, List.head?_append, hhead]; rfl)
      omega
  · rw [hmiddle, String.utf8ByteSize_append]
    exact Nat.le_add_right _ _

/-! ## Parts -/

/-- A part that comes after more text than fits begins with a character that still has room behind the cut. -/
def Spliced (t : Bounded limit) (parts : List String) : Prop :=
  ∃ before part after c, parts = before ++ part :: after ∧
    limit < t.text.utf8ByteSize + (String.join before).utf8ByteSize ∧ part.toList.head? = some c ∧
    (t.pour (String.join parts).toList).text.utf8ByteSize + c.utf8Size ≤ limit

def pourAll (t : Bounded limit) (parts : List String) : Bounded limit :=
  parts.foldl (fun t part => t.pour part.toList) t

theorem size_le_pourAll (t : Bounded limit) (parts : List String) :
    t.text.utf8ByteSize ≤ (t.pourAll parts).text.utf8ByteSize := by
  induction parts generalizing t with
  | nil => exact Nat.le_refl _
  | cons part parts ih => exact Nat.le_trans (t.size_le_pour part.toList) (ih _)

theorem pour_eq_self_of_size {t : Bounded limit} {cs : List Char}
    (h : (t.pour cs).text.utf8ByteSize ≤ t.text.utf8ByteSize) : t.pour cs = t := by
  obtain ⟨taken, -, -, htext, -⟩ := t.exists_pour_eq cs
  rw [htext, String.utf8ByteSize_append] at h
  have hnothing : String.ofList taken = "" := String.utf8ByteSize_eq_zero_iff.1 (by omega)
  rw [← text_inj, htext, hnothing, String.append_empty]

theorem pourAll_eq_self_iff (t : Bounded limit) (parts : List String) :
    t.pourAll parts = t ↔ ∀ part ∈ parts, ∀ c ∈ part.toList.head?, limit < t.text.utf8ByteSize + c.utf8Size := by
  induction parts generalizing t with
  | nil => simp [pourAll]
  | cons part parts ih =>
    have hcons : t.pourAll (part :: parts) = (t.pour part.toList).pourAll parts := rfl
    rw [hcons, List.forall_mem_cons]
    constructor
    · intro h
      have hpart : t.pour part.toList = t := by
        refine pour_eq_self_of_size ?_
        have hle := (t.pour part.toList).size_le_pourAll parts
        rwa [h] at hle
      rw [hpart] at h
      exact ⟨(t.pour_eq_self_iff _).1 hpart, (ih t).1 h⟩
    · rintro ⟨hpart, hparts⟩
      rw [(t.pour_eq_self_iff _).2 hpart]
      exact (ih t).2 hparts

section Cons

variable {t : Bounded limit} {part : String} {parts : List String}

theorem pour_join_cons (t : Bounded limit) (part : String) (parts : List String) :
    t.pour (String.join (part :: parts)).toList =
      if t.text.utf8ByteSize + part.utf8ByteSize ≤ limit then (t.pour part.toList).pour (String.join parts).toList
      else t.pour part.toList := by
  rw [String.join_cons, String.toList_append, pour_append, String.ofList_toList]

theorem spliced_cons_of_le (h : t.text.utf8ByteSize + part.utf8ByteSize ≤ limit) :
    t.Spliced (part :: parts) ↔ (t.pour part.toList).Spliced parts := by
  have hpour := pour_join_cons t part parts
  rw [if_pos h] at hpour
  have hsize : (t.pour part.toList).text.utf8ByteSize = t.text.utf8ByteSize + part.utf8ByteSize := by
    rw [pour_of_fits h, String.utf8ByteSize_append]
  unfold Spliced
  rw [hpour, hsize]
  constructor
  · rintro ⟨before, later, after, c, hsplit, hbeyond, hhead, hroom⟩
    cases before with
    | nil =>
      have hfits := t.fits
      rw [String.join_nil, String.utf8ByteSize_empty] at hbeyond
      omega
    | cons first before =>
      obtain ⟨rfl, rfl⟩ := List.cons.inj hsplit
      rw [String.join_cons, String.utf8ByteSize_append] at hbeyond
      exact ⟨before, later, after, c, rfl, by omega, hhead, hroom⟩
  · rintro ⟨before, later, after, c, rfl, hbeyond, hhead, hroom⟩
    refine ⟨part :: before, later, after, c, rfl, ?_, hhead, hroom⟩
    rw [String.join_cons, String.utf8ByteSize_append]
    omega

theorem spliced_cons_of_lt (h : limit < t.text.utf8ByteSize + part.utf8ByteSize) :
    t.Spliced (part :: parts) ↔ ∃ later ∈ parts, ∃ c ∈ later.toList.head?,
      (t.pour part.toList).text.utf8ByteSize + c.utf8Size ≤ limit := by
  have hpour := pour_join_cons t part parts
  rw [if_neg (Nat.not_le.2 h)] at hpour
  unfold Spliced
  rw [hpour]
  constructor
  · rintro ⟨before, later, after, c, hsplit, hbeyond, hhead, hroom⟩
    cases before with
    | nil =>
      have hfits := t.fits
      rw [String.join_nil, String.utf8ByteSize_empty] at hbeyond
      omega
    | cons first before =>
      obtain ⟨rfl, rfl⟩ := List.cons.inj hsplit
      exact ⟨later, by simp, c, hhead, hroom⟩
  · rintro ⟨later, hlater, c, hhead, hroom⟩
    obtain ⟨before, after, rfl⟩ := List.append_of_mem hlater
    refine ⟨part :: before, later, after, c, rfl, ?_, hhead, hroom⟩
    rw [String.join_cons, String.utf8ByteSize_append]
    omega

end Cons

/-- **Parts are poured as one text exactly if no part is spliced on.** -/
theorem pourAll_eq_pour_iff (t : Bounded limit) (parts : List String) :
    t.pourAll parts = t.pour (String.join parts).toList ↔ ¬ t.Spliced parts := by
  induction parts generalizing t with
  | nil => simp [pourAll, pour, Spliced]
  | cons part parts ih =>
    have hcons : t.pourAll (part :: parts) = (t.pour part.toList).pourAll parts := rfl
    rw [hcons, pour_join_cons]
    by_cases hpart : t.text.utf8ByteSize + part.utf8ByteSize ≤ limit
    · rw [if_pos hpart, spliced_cons_of_le hpart]
      exact ih _
    · rw [if_neg hpart, spliced_cons_of_lt (Nat.lt_of_not_le hpart), pourAll_eq_self_iff]
      simp only [not_exists, not_and, Nat.not_le]

/-- **Only a character of several octets leaves room behind the cut.** -/
theorem not_spliced_of_narrow {t : Bounded limit} {parts : List String}
    (h : ∀ c ∈ (String.join parts).toList, c.utf8Size = 1) : ¬ t.Spliced parts := by
  rintro ⟨before, part, after, c, rfl, hbeyond, -, hroom⟩
  have hpos := c.utf8Size_pos
  obtain ⟨taken, rest, hsplit, htext, hnext⟩ := t.pour_spec (String.join (before ++ part :: after))
  rcases empty_or_begins rest with rfl | ⟨next, hhead, -⟩
  · have hfits := (t.pour (String.join (before ++ part :: after)).toList).fits
    rw [String.append_empty] at hsplit
    rw [htext, ← hsplit, String.join_append, String.utf8ByteSize_append, String.utf8ByteSize_append] at hfits
    omega
  · have hmem : next ∈ (String.join (before ++ part :: after)).toList := by
      rw [hsplit, String.toList_append]
      exact List.mem_append_right _ (List.mem_of_mem_head? hhead)
    have hnarrow := h next hmem
    have hlt := hnext next hhead
    omega

theorem not_spliced_of_fits {t : Bounded limit} {parts : List String}
    (h : t.text.utf8ByteSize + (String.join parts).utf8ByteSize ≤ limit) : ¬ t.Spliced parts := by
  rintro ⟨before, part, after, c, rfl, hbeyond, -, -⟩
  rw [String.join_append, String.utf8ByteSize_append] at h
  omega

/-- **What is poured in parts is the longest front of the whole exactly if no part is spliced on.** -/
theorem isTruncation_ofParts_iff (limit : Nat) (parts : List String) :
    IsTruncation limit (String.join parts) (ofParts limit parts).text ↔ ¬ (empty : Bounded limit).Spliced parts := by
  have hparts : ofParts limit parts = empty.pourAll parts := rfl
  have hcut := truncate_isTruncation limit (String.join parts)
  rw [← pourAll_eq_pour_iff, hparts]
  constructor
  · intro h
    exact text_inj.1 (h.unique hcut)
  · intro h
    rw [h]
    exact hcut

theorem text_ofParts_of_fits {parts : List String} (h : (String.join parts).utf8ByteSize ≤ limit) :
    (ofParts limit parts).text = String.join parts := by
  have hempty : (empty : Bounded limit).text.utf8ByteSize + (String.join parts).utf8ByteSize ≤ limit := by
    rwa [empty, String.utf8ByteSize_empty, Nat.zero_add]
  have hparts : ofParts limit parts = empty.pour (String.join parts).toList :=
    (pourAll_eq_pour_iff empty parts).2 (not_spliced_of_fits hempty)
  rw [hparts, pour_of_fits hempty, empty, String.empty_append]

end Bounded

namespace Ack

open Bounded (IsTruncation)

/-- **A message is its text cut to the longest front that fits, exactly if no part is spliced on behind the cut.**  So
it is if the text fits, which is then the message, and if the text has only characters of one octet. -/
theorem message_truncated_iff (id : AckId) (kind : RequestKind) (success : Bool) (parts : List String) :
    (IsTruncation 128 (String.join parts) (ofParts id kind success parts).message.text ↔
      ¬ (Bounded.empty : Bounded 128).Spliced parts) ∧
    ((String.join parts).utf8ByteSize ≤ 128 → (ofParts id kind success parts).message.text = String.join parts) ∧
    ((∀ c ∈ (String.join parts).toList, c.utf8Size = 1) →
      IsTruncation 128 (String.join parts) (ofParts id kind success parts).message.text) := by
  have hiff := Bounded.isTruncation_ofParts_iff 128 parts
  exact ⟨hiff, Bounded.text_ofParts_of_fits, fun hnarrow => hiff.2 (Bounded.not_spliced_of_narrow hnarrow)⟩

def filling (n : Nat) : String := String.ofList (List.replicate n 'a')

theorem utf8Size_of_mem_filling {n : Nat} {c : Char} (h : c ∈ List.replicate n 'a') : c.utf8Size = 1 := by
  rw [List.eq_of_mem_replicate h]
  rfl

theorem utf8ByteSize_filling (n : Nat) : (filling n).utf8ByteSize = n := by
  rw [filling, utf8ByteSize_ofList_of_utf8Size fun _ => utf8Size_of_mem_filling, List.length_replicate]

theorem longFilling_truncated :
    (∀ c ∈ (String.join [filling 100, filling 100]).toList, c.utf8Size = 1) ∧
      IsTruncation 128 (String.join [filling 100, filling 100])
        (ofParts Bounded.empty .command false [filling 100, filling 100]).message.text := by
  have hnarrow : ∀ c ∈ (String.join [filling 100, filling 100]).toList, c.utf8Size = 1 := by
    intro c hc
    rw [String.toList_join] at hc
    obtain ⟨part, hpart, hmem⟩ := List.mem_flatMap.1 hc
    obtain rfl : part = filling 100 := by simpa using hpart
    rw [filling, String.toList_ofList] at hmem
    exact utf8Size_of_mem_filling hmem
  exact ⟨hnarrow, (message_truncated_iff Bounded.empty .command false _).2.2 hnarrow⟩

/-- **A later part is spliced on** in the place of a character of two octets, for which there was room for one. -/
theorem wide_character_spliced :
    ¬ ∀ (id : AckId) (kind : RequestKind) (success : Bool) (parts : List String),
      IsTruncation 128 (String.join parts) (ofParts id kind success parts).message.text := by
  intro htruncated
  have hcut := htruncated Bounded.empty .command false [filling 127, "é", "b"]
  refine (Bounded.isTruncation_ofParts_iff 128 _).1 hcut ?_
  have hfits : (Bounded.empty : Bounded 128).text.utf8ByteSize + (filling 127).utf8ByteSize ≤ 128 := by
    rw [Bounded.empty, String.utf8ByteSize_empty, utf8ByteSize_filling]
    decide
  have hfull : ((Bounded.empty : Bounded 128).pour (filling 127).toList).text.utf8ByteSize = 127 := by
    rw [Bounded.pour_of_fits hfits, Bounded.empty, String.empty_append, utf8ByteSize_filling]
  have hdropped : ((Bounded.empty : Bounded 128).pour (filling 127).toList).pour "é".toList =
      (Bounded.empty : Bounded 128).pour (filling 127).toList := by
    refine Bounded.pour_cons_of_lt ?_ []
    rw [hfull]
    decide
  rw [Bounded.spliced_cons_of_le hfits, Bounded.spliced_cons_of_lt]
  · refine ⟨"b", by simp, 'b', rfl, ?_⟩
    rw [hdropped, hfull]
    decide
  · rw [hfull]
    decide

end Ack
end Firmware
