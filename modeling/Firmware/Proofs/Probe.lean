import Firmware.Proofs.Decimal
import Firmware.Proofs.Download
import Firmware.Proofs.Size
/-!
# Probe — what the size of an image is read from

A size is declared as `bytes 0-0/` and one to eight digits, leading zeros included, and read from nothing else
(`ofContentRange_eq_ok_iff`).  A probe makes one request, for the first octet, and ends well exactly if the answer is no
failure and declares a size within the limit.
-/
namespace Firmware

/-! ## Declared sizes -/

namespace ImageSize

/-- The text declares the size: `bytes 0-0/` and one to eight digits that write it. -/
def Declared (value : String) (n : Nat) : Prop :=
  ∃ digits : List Char, value = "bytes 0-0/" ++ String.ofList digits ∧ 1 ≤ digits.length ∧ digits.length ≤ 8 ∧
    (∀ c ∈ digits, '0' ≤ c ∧ c ≤ '9') ∧ Decimal.worth digits = n

theorem utf8ByteSize_lead_append {digits : List Char} (h : ∀ c ∈ digits, c.isDigit = true) :
    ("bytes 0-0/" ++ String.ofList digits).utf8ByteSize = 10 + digits.length := by
  have hlead : "bytes 0-0/".utf8ByteSize = 10 := by decide
  rw [String.utf8ByteSize_append, hlead, utf8ByteSize_ofList_of_utf8Size fun c hc => utf8Size_of_isDigit (h c hc)]

theorem toList_lead_append (digits : List Char) :
    ("bytes 0-0/" ++ String.ofList digits).toList = lead ++ digits := by
  rw [String.toList_append]
  exact congrArg (lead ++ ·) String.toList_ofList

theorem eq_lead_append {value : String} (h : lead.isPrefixOf value.toList = true) :
    value = "bytes 0-0/" ++ String.ofList (value.toList.drop lead.length) := by
  obtain ⟨digits, hvalue⟩ := List.isPrefixOf_iff_prefix.1 h
  apply String.ext
  rw [toList_lead_append, ← hvalue, List.drop_left]

theorem Declared.lt {value : String} {n : Nat} (h : Declared value n) : n < 100000000 := by
  obtain ⟨digits, -, -, hlength, hdigits, rfl⟩ := h
  have hlt := Decimal.worth_lt fun c hc => Decimal.isDigit_iff.2 (hdigits c hc)
  have hpow : 10 ^ digits.length ≤ 10 ^ 8 := Nat.pow_le_pow_right (by decide) hlength
  omega

/-- **A size is read from the texts that declare it, and from no others.** -/
theorem ofContentRange_eq_ok_iff {value : String} {n : UInt32} :
    ofContentRange value = .ok n ↔ Declared value n.toNat := by
  constructor
  · intro h
    unfold ofContentRange at h
    split at h
    · cases h
    rename_i hshort
    split at h
    · cases h
    rename_i hlead
    simp only [Bool.not_eq_true', Bool.not_eq_false] at hlead
    have hvalue := eq_lead_append hlead
    generalize value.toList.drop lead.length = digits at h hvalue
    cases hnumber : Decimal.value? digits with
    | none => simp [hnumber] at h
    | some m =>
      obtain ⟨hne, hdigits, hworth⟩ := Decimal.value?_eq_some_iff.1 hnumber
      rw [hvalue, utf8ByteSize_lead_append hdigits] at hshort
      simp only [hnumber] at h
      split at h
      · rename_i hm
        cases h
        refine ⟨digits, hvalue, List.length_pos_iff.2 hne, by omega,
          fun c hc => Decimal.isDigit_iff.1 (hdigits c hc), ?_⟩
        rw [hworth, UInt32.toNat_ofNat_of_lt' hm]
      · cases h
  · intro h
    have hlt := h.lt
    obtain ⟨digits, rfl, hpos, hlength, hdigits, hworth⟩ := h
    have hdigits' : ∀ c ∈ digits, c.isDigit = true := fun c hc => Decimal.isDigit_iff.2 (hdigits c hc)
    have hnumber : Decimal.value? digits = some n.toNat :=
      Decimal.value?_eq_some_iff.2 ⟨List.ne_nil_of_length_pos hpos, hdigits', hworth⟩
    unfold ofContentRange
    rw [utf8ByteSize_lead_append hdigits', if_neg (by omega), toList_lead_append, if_neg (by simp), List.drop_left,
      hnumber]
    simp only
    rw [if_pos n.toNat_lt_size, UInt32.ofNat_toNat]

theorem ofContentRange_eq_error_iff {value : String} {e : UpdateError} :
    ofContentRange value = .error e ↔ e = .malformedContentRange ∧ ∀ n, ¬ Declared value n := by
  have hmalformed : ∀ e, ofContentRange value = .error e → e = .malformedContentRange := by
    intro e h
    unfold ofContentRange at h
    split at h
    · exact (Except.error.inj h).symm
    split at h
    · exact (Except.error.inj h).symm
    split at h
    · split at h
      · cases h
      · exact (Except.error.inj h).symm
    · exact (Except.error.inj h).symm
  constructor
  · intro h
    refine ⟨hmalformed e h, fun n hn => ?_⟩
    have hfits : n < UInt32.size := Nat.lt_trans hn.lt (by decide)
    rw [← UInt32.toNat_ofNat_of_lt' hfits] at hn
    rw [ofContentRange_eq_ok_iff.2 hn] at h
    cases h
  · rintro ⟨rfl, hnone⟩
    cases h : ofContentRange value with
    | error e => rw [hmalformed e h]
    | ok n => exact absurd (ofContentRange_eq_ok_iff.1 h) (hnone _)

end ImageSize

/-! ## Probes -/

/-- The answer is no failure and declares a size from one octet up to the limit. -/
structure RangeAnswer.Sizes (answer : RangeAnswer) (maxSize n : UInt32) : Prop where
  status : answer.status < 400
  declared : ∃ header, answer.contentRange = some header ∧ ImageSize.Declared header.text n.toNat
  pos : 1 ≤ n.toNat
  le : n ≤ maxSize

theorem RangeAnswer.sizes_iff {answer : RangeAnswer} {maxSize n : UInt32} :
    answer.Sizes maxSize n ↔ answer.isFailure = false ∧
      (∃ header, answer.contentRange = some header ∧ ImageSize.ofContentRange header.text = .ok n) ∧
      n ≠ 0 ∧ ¬ maxSize < n := by
  have hstatus : answer.isFailure = false ↔ answer.status < 400 := by simp [isFailure]
  have hpos : n ≠ 0 ↔ 1 ≤ n.toNat := by
    rw [Nat.one_le_iff_ne_zero, ne_eq, ne_eq, ← UInt32.toNat_inj]
    rfl
  simp only [hstatus, hpos, UInt32.not_lt, ImageSize.ofContentRange_eq_ok_iff]
  exact ⟨fun h => ⟨h.status, h.declared, h.pos, h.le⟩, fun ⟨h₁, h₂, h₃, h₄⟩ => ⟨h₁, h₂, h₃, h₄⟩⟩

namespace Download

variable {C F : Type} [RangeSource C]

/-- **A probe is one request**, and ends well exactly if the answer declares a size within the limit. -/
theorem probe_eq_conclude (resource : String) (maxSize : UInt32) (d : Device C F)
    {answer : Except FetchError RangeAnswer} {buffer : Bytes} {source : C}
    (hfetch : RangeSource.fetch d.source resource .firstOctet [0] = (⟨answer, buffer⟩, source)) :
    ∃ outcome, probe resource maxSize d =
        Task.conclude outcome ({ d with source }.note (.fetch resource .firstOctet answer buffer)) ∧
      ∀ n, outcome = .ok n ↔ ∃ response, answer = .ok response ∧ response.Sizes maxSize n := by
  unfold probe
  rw [Device.bind_fetch, hfetch]
  simp only [Task.throw_bind]
  cases answer with
  | error e => exact ⟨.error (.fetch e), rfl, by simp⟩
  | ok response =>
    simp only [Except.ok.injEq, exists_eq_left', RangeAnswer.sizes_iff]
    by_cases hfailure : response.isFailure = true
    · rw [if_pos hfailure]
      exact ⟨.error (.fetch (.status response.status)), rfl, by simp [hfailure]⟩
    rw [if_neg hfailure]
    rcases hheader : response.contentRange with _ | header
    · exact ⟨.error .missingContentRange, rfl, by simp⟩
    simp only
    by_cases hempty : header.isEmpty = true
    · have hnothing : header.text = "" := by simpa [Bounded.isEmpty] using hempty
      have hmalformed : ImageSize.ofContentRange "" = .error .malformedContentRange := rfl
      rw [if_pos hempty]
      exact ⟨.error .missingContentRange, rfl, by simp [hnothing, hmalformed]⟩
    rw [if_neg hempty]
    cases hread : ImageSize.ofContentRange header.text with
    | error e => exact ⟨.error e, rfl, by simp [hread]⟩
    | ok total =>
      rw [Task.bind_of_ok (Task.conclude_ok total _)]
      by_cases hzero : total = 0
      · rw [if_pos hzero]
        exact ⟨.error .emptyImage, rfl, by grind⟩
      rw [if_neg hzero]
      by_cases hlarge : maxSize < total
      · rw [if_pos hlarge]
        exact ⟨.error (.imageTooLarge total maxSize), rfl, by grind⟩
      rw [if_neg hlarge]
      exact ⟨.ok total, rfl, by grind⟩

/-- **A size is read from `bytes 0-0/` and one to eight digits that write it, and from nothing else**: every number up
to 99999999 reads back, and no number is too large to be read.  A probe makes one request, for the first octet, and ends
well exactly if the answer is no failure and declares in this way a size from one octet up to the limit. -/
theorem probe_reads_declared :
    (∀ (value : String) (n : UInt32), ImageSize.ofContentRange value = .ok n ↔ ImageSize.Declared value n.toNat) ∧
    (∀ value n, ImageSize.Declared value n → n ≤ 99999999 ∧ ∃ m, ImageSize.ofContentRange value = .ok m) ∧
    (∀ n ≤ 99999999, ImageSize.ofContentRange ("bytes 0-0/" ++ Decimal.text n) = .ok (UInt32.ofNat n)) ∧
    ∀ {C F : Type} [RangeSource C] (resource : String) (maxSize : UInt32) (d : Device C F),
      ∃ answer buffer source, RangeSource.fetch d.source resource .firstOctet [0] = (⟨answer, buffer⟩, source) ∧
        (probe resource maxSize).after d = { d with source }.note (.fetch resource .firstOctet answer buffer) ∧
        ∀ n, (probe resource maxSize).result d = .ok n ↔
          ∃ response, answer = .ok response ∧ response.Sizes maxSize n := by
  refine ⟨fun _ _ => ImageSize.ofContentRange_eq_ok_iff, fun value n h => ?_, fun n hn => ?_, ?_⟩
  · have hlt := h.lt
    have hfits : n < UInt32.size := Nat.lt_trans hlt (by decide)
    rw [← UInt32.toNat_ofNat_of_lt' hfits] at h
    exact ⟨by omega, _, ImageSize.ofContentRange_eq_ok_iff.2 h⟩
  · exact ImageSize.ofContentRange_sent (Nat.lt_succ_of_le hn)
  · intro C F _ resource maxSize d
    obtain ⟨outcome, hrun, hends⟩ := probe_eq_conclude resource maxSize d rfl
    refine ⟨_, _, _, rfl, Task.after_of_conclude hrun, fun n => ?_⟩
    rw [← hends, Task.result, hrun]
    cases outcome <;> simp

theorem sizeHeader_fits : "bytes 0-0/003".utf8ByteSize ≤ 32 := by decide

def threeDeclared : RangeAnswer :=
  { status := 206, contentRange := some ⟨"bytes 0-0/003", sizeHeader_fits⟩, bodySize := 1 }

def declaring : RehearsedSource :=
  { connected := true, fetches := [.answer 206 (some "bytes 0-0/003") [0] 1] }

theorem threeDeclared_probed :
    ImageSize.Declared "bytes 0-0/003" 3 ∧ ImageSize.ofContentRange "bytes 0-0/003" = .ok 3 ∧
      (99999999 ≤ 99999999 ∧
        ImageSize.ofContentRange ("bytes 0-0/" ++ Decimal.text 99999999) = .ok (UInt32.ofNat 99999999)) ∧
      threeDeclared.Sizes 3 3 ∧ (probe "/image" 3).result (awaiting declaring) = .ok 3 := by
  obtain ⟨hread, -, hwritten, hprobe⟩ := probe_reads_declared
  have hdeclared : ImageSize.Declared "bytes 0-0/003" 3 := by
    refine ⟨['0', '0', '3'], rfl, by decide, by decide, fun c hc => ?_, rfl⟩
    simp only [List.mem_cons, List.not_mem_nil, or_false] at hc
    rcases hc with rfl | rfl | rfl <;> decide
  have hlarge : 99999999 ≤ 99999999 := Nat.le_refl _
  have hsizes : threeDeclared.Sizes 3 3 :=
    { status := by decide, declared := ⟨_, rfl, hdeclared⟩, pos := by decide, le := by decide }
  have hfetch : RangeSource.fetch (awaiting declaring).source "/image" .firstOctet [0] =
      (⟨.ok threeDeclared, [0]⟩, { declaring with fetches := [] }) := rfl
  obtain ⟨answer, buffer, source, hanswer, -, hends⟩ := hprobe "/image" 3 (awaiting declaring)
  rw [hfetch] at hanswer
  cases hanswer
  exact ⟨hdeclared, (hread _ 3).2 hdeclared, ⟨hlarge, hwritten _ hlarge⟩, hsizes, (hends 3).2 ⟨_, rfl, hsizes⟩⟩

end Download
end Firmware
