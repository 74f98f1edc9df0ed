import Firmware.Settings.Basic
/-!
# Settings — which settings are let through

The check names the first value that is out of its range, so it passes exactly if every value is in its range.
-/
namespace Firmware.UpdateSettings

structure InRange (u : UpdateSettings) : Prop where
  chunkSize : 512 ≤ u.chunkSize.toNat ∧ u.chunkSize.toNat ≤ 16384
  maxRetries : 1 ≤ u.maxRetries.toNat ∧ u.maxRetries.toNat ≤ 100
  retryBackoffMs : u.retryBackoffMs.toNat ≤ 60000
  progressEveryChunks : u.progressEveryChunks ≠ 0
  maxImageSize : u.maxImageSize ≠ 0 ∧ u.maxImageSize.toNat ≤ 99999999
  httpsPort : u.httpsPort ≠ 0
  connectTimeoutMs : u.connectTimeoutMs ≠ 0
  rxFilePath : u.rxFilePath.isEmpty = false

/-- **No fault is found exactly if every value is in its range.** -/
theorem fault?_eq_none {u : UpdateSettings} : u.fault? = none ↔ u.InRange := by
  unfold fault?
  constructor
  · intro h
    split at h
    · cases h
    rename_i hchunk
    split at h
    · cases h
    rename_i hretries
    split at h
    · cases h
    rename_i hbackoff
    split at h
    · cases h
    rename_i hprogress
    split at h
    · cases h
    rename_i hmax
    split at h
    · cases h
    rename_i hport
    split at h
    · cases h
    rename_i htimeout
    split at h
    · cases h
    rename_i hpath
    simp only [not_or, UInt32.not_lt, UInt32.le_iff_toNat_le] at hchunk hretries hbackoff hmax
    exact ⟨hchunk, hretries, hbackoff, hprogress, hmax, hport, htimeout, by simpa using hpath⟩
  · intro h
    have hchunk : ¬ (u.chunkSize < 512 ∨ 16384 < u.chunkSize) := by
      simp only [not_or, UInt32.not_lt, UInt32.le_iff_toNat_le]
      exact h.chunkSize
    have hretries : ¬ (u.maxRetries < 1 ∨ 100 < u.maxRetries) := by
      simp only [not_or, UInt32.not_lt, UInt32.le_iff_toNat_le]
      exact h.maxRetries
    have hbackoff : ¬ 60000 < u.retryBackoffMs := by
      simp only [UInt32.not_lt, UInt32.le_iff_toNat_le]
      exact h.retryBackoffMs
    have hmax : ¬ (u.maxImageSize = 0 ∨ 99999999 < u.maxImageSize) := by
      simp only [not_or, UInt32.not_lt, UInt32.le_iff_toNat_le]
      exact h.maxImageSize
    rw [if_neg hchunk, if_neg hretries, if_neg hbackoff, if_neg h.progressEveryChunks, if_neg hmax,
      if_neg h.httpsPort, if_neg h.connectTimeoutMs, if_neg (by simp [h.rxFilePath])]

theorem InRange.chunkSize_ne_zero {u : UpdateSettings} (h : u.InRange) : u.chunkSize ≠ 0 := fun hzero => by
  have hchunk := h.chunkSize.1
  rw [hzero] at hchunk
  exact absurd hchunk (by decide)

end Firmware.UpdateSettings
