import Firmware.Settings.Blob
import Mathlib.Algebra.Group.Nat.Defs
/-!
# Blob — settings read back from the form they are stored in

A reader that takes just what a writer made leaves the octets after it, so fields that are written one after the other
are read one after the other.  The main statements are that all settings read back from their blob and that no blob
needs more than 610 octets.
-/
namespace Firmware

theorem Bytes.length_ofText (s : String) : (Bytes.ofText s).length = s.utf8ByteSize := by
  rw [ofText, Array.length_toList]
  rfl

namespace Blob

variable {α β : Type}

/-- The reader takes `blob` from the front of any octets, as `a`, and leaves the octets after it. -/
def Reads (read : Reader α) (blob : Bytes) (a : α) : Prop := ∀ rest, read.run (blob ++ rest) = some (a, rest)

theorem reads_pure (a : α) : Reads (pure a) [] a := fun _ => rfl

theorem Reads.bind {read : Reader α} {next : α → Reader β} {blob blob' : Bytes} {a : α} {b : β}
    (h : Reads read blob a) (hn : Reads (next a) blob' b) : Reads (read >>= next) (blob ++ blob') b := fun rest => by
  rw [StateT.run_bind, List.append_assoc, h]
  exact hn rest

theorem Reads.map {read : Reader α} {blob : Bytes} {a : α} (h : Reads read blob a) (f : α → β) :
    Reads (read >>= fun a => pure (f a)) blob (f a) := by
  rw [← List.append_nil blob]
  exact h.bind (reads_pure (f a))

theorem reads_octet (b : UInt8) : Reads octet [b] b := fun _ => rfl

theorem reads_take (blob : Bytes) : Reads (take blob.length) blob blob := fun rest => by
  simp [take, StateT.run]

/-! ## Numbers -/

variable {groups : Nat} {top : UInt8}

theorem reads_last {n : Nat} (hn : n < 128) (htop : groups = 0 → n ≤ top.toNat) :
    Reads (readNumber (groups + 1) top) [UInt8.ofNat n] n := by
  have hvalue : (UInt8.ofNat n).toNat = n := by
    rw [UInt8.toNat_ofNat']
    omega
  have hlast : UInt8.ofNat n < 128 := by
    rw [UInt8.lt_iff_toNat_lt, hvalue]
    exact hn
  have hallowed : ¬ (groups = 0 ∧ top < UInt8.ofNat n) := by
    rintro ⟨hzero, hlt⟩
    rw [UInt8.lt_iff_toNat_lt, hvalue] at hlt
    exact absurd (htop hzero) (Nat.not_le.2 hlt)
  have hnext : Reads (if UInt8.ofNat n < 128 then
      (if groups = 0 ∧ top < UInt8.ofNat n then failure else pure (UInt8.ofNat n).toNat)
      else (return (UInt8.ofNat n).toNat - 128 + 128 * (← readNumber groups top))) [] n := by
    rw [if_pos hlast, if_neg hallowed, hvalue]
    exact reads_pure n
  exact (reads_octet _).bind hnext

theorem reads_more {k m : Nat} {blob : Bytes} (hk : k < 128) (h : Reads (readNumber groups top) blob m) :
    Reads (readNumber (groups + 1) top) (UInt8.ofNat (k + 128) :: blob) (k + 128 * m) := by
  have hvalue : (UInt8.ofNat (k + 128)).toNat = k + 128 := by
    rw [UInt8.toNat_ofNat']
    omega
  have hmore : ¬ UInt8.ofNat (k + 128) < 128 := by
    rw [UInt8.lt_iff_toNat_lt, hvalue]
    simp
  have hnext : Reads (if UInt8.ofNat (k + 128) < 128 then
      (if groups = 0 ∧ top < UInt8.ofNat (k + 128) then failure else pure (UInt8.ofNat (k + 128)).toNat)
      else (return (UInt8.ofNat (k + 128)).toNat - 128 + 128 * (← readNumber groups top))) blob (k + 128 * m) := by
    rw [if_neg hmore, hvalue, Nat.add_sub_cancel]
    exact h.map fun m => k + 128 * m
  exact (reads_octet _).bind hnext

theorem reads_number {n : Nat} (htop : top.toNat < 128) (h : n < (top.toNat + 1) * 128 ^ groups) :
    Reads (readNumber (groups + 1) top) (number (groups + 1) n) n := by
  induction groups generalizing n with
  | zero =>
    have hn : n ≤ top.toNat := by omega
    rw [number, if_pos (by omega)]
    exact reads_last (by omega) fun _ => hn
  | succ groups ih =>
    rw [number]
    by_cases hn : n < 128
    · rw [if_pos hn]
      exact reads_last hn (nomatch ·)
    · have hrest : n / 128 < (top.toNat + 1) * 128 ^ groups := by
        rw [Nat.div_lt_iff_lt_mul (by decide), Nat.mul_assoc, ← Nat.pow_succ]
        exact h
      have hsum : n % 128 + 128 * (n / 128) = n := Nat.mod_add_div n 128
      rw [if_neg hn]
      have hmore := reads_more (Nat.mod_lt n (by decide)) (ih hrest)
      rwa [hsum] at hmore

theorem length_number_le (groups n : Nat) : (number groups n).length ≤ groups := by
  induction groups generalizing n with
  | zero => exact Nat.le_refl 0
  | succ groups ih =>
    rw [number]
    by_cases hn : n < 128
    · rw [if_pos hn]
      simp
    · rw [if_neg hn, List.length_cons]
      exact Nat.succ_le_succ (ih _)

theorem reads_u16 (n : UInt16) : Reads readU16 (number 3 n.toNat) n := by
  have hn : n.toNat < (3 + 1) * 128 ^ 2 := n.toNat_lt
  have hnumber : Reads (readNumber 3 3) (number 3 n.toNat) n.toNat := reads_number (by decide) hn
  have hread := hnumber.map UInt16.ofNat
  rwa [UInt16.ofNat_toNat] at hread

theorem reads_u32 (n : UInt32) : Reads readU32 (number 5 n.toNat) n := by
  have hn : n.toNat < (15 + 1) * 128 ^ 4 := n.toNat_lt
  have hnumber : Reads (readNumber 5 15) (number 5 n.toNat) n.toNat := reads_number (by decide) hn
  have hread := hnumber.map UInt32.ofNat
  rwa [UInt32.ofNat_toNat] at hread

/-! ## Texts and truth values -/

theorem reads_text {limit : Nat} (hlimit : limit < 2 * 128 ^ 9) (t : Bounded limit) :
    Reads (readText limit) (text t.text) t := by
  have hsize : t.text.utf8ByteSize < (1 + 1) * 128 ^ 9 := Nat.lt_of_le_of_lt t.fits hlimit
  have hlength : Reads (readNumber 10 1) (number 10 t.text.utf8ByteSize) t.text.utf8ByteSize :=
    reads_number (by decide) hsize
  have hoctets : Reads (take t.text.utf8ByteSize) (Bytes.ofText t.text) (Bytes.ofText t.text) := by
    rw [← Bytes.length_ofText]
    exact reads_take _
  refine hlength.bind fun rest => ?_
  rw [StateT.run_bind, hoctets rest]
  simp [Bytes.text?_ofText, Bounded.ofText?_text]

theorem reads_boolean (b : Bool) : Reads readBoolean (boolean b) b := by
  intro rest
  cases b <;> rfl

theorem length_text_le {limit : Nat} (t : Bounded limit) : (text t.text).length ≤ 10 + limit := by
  have := length_number_le 10 t.text.utf8ByteSize
  have := t.fits
  rw [text, List.length_append, Bytes.length_ofText]
  omega

end Blob

open Blob

/-! ## Settings -/

theorem DeviceSettings.reads_blob (d : DeviceSettings) : Reads read d.blob d := by
  unfold blob read
  simp only [List.append_assoc]
  refine (reads_text (by decide) d.duid).bind ?_
  refine (reads_text (by decide) d.cpid).bind ?_
  refine (reads_text (by decide) d.env).bind ?_
  refine (reads_text (by decide) d.mqttEndpoint).bind ?_
  exact (reads_text (by decide) d.telemetryCd).map _

theorem UpdateSettings.reads_blob (u : UpdateSettings) : Reads read u.blob u := by
  unfold blob read
  simp only [List.append_assoc]
  refine (reads_u32 u.chunkSize).bind ?_
  refine (reads_u32 u.maxRetries).bind ?_
  refine (reads_u32 u.retryBackoffMs).bind ?_
  refine (reads_u32 u.progressEveryChunks).bind ?_
  refine (reads_u32 u.maxImageSize).bind ?_
  refine (reads_u16 u.httpsPort).bind ?_
  refine (reads_u32 u.connectTimeoutMs).bind ?_
  refine (reads_u32 u.postDownloadDelayMs).bind ?_
  refine (reads_u32 u.ackSettleMs).bind ?_
  refine (reads_text (by decide) u.rxFilePath).bind ?_
  refine (reads_text (by decide) u.signerCertPath).bind ?_
  exact (reads_boolean u.allowDowngrade).map _

/-- **Settings read back from their blob.** -/
theorem Settings.ofBlob?_blob (s : Settings) : ofBlob? s.blob = some s := by
  have hdevice := s.device.reads_blob s.ota.blob
  have hota := s.ota.reads_blob []
  rw [List.append_nil] at hota
  simp [ofBlob?, blob, hdevice, hota]

/-- **No blob needs more than 610 octets.** -/
theorem Settings.length_blob_le (s : Settings) : s.blob.length ≤ 610 := by
  have hdevice : s.device.blob.length ≤ 418 := by
    have h₁ := length_text_le s.device.duid
    have h₂ := length_text_le s.device.cpid
    have h₃ := length_text_le s.device.env
    have h₄ := length_text_le s.device.mqttEndpoint
    have h₅ := length_text_le s.device.telemetryCd
    simp only [DeviceSettings.blob, List.length_append]
    omega
  have hota : s.ota.blob.length ≤ 192 := by
    have hnumber := length_number_le
    have h₁ := length_text_le s.ota.rxFilePath
    have h₂ := length_text_le s.ota.signerCertPath
    have h₃ : (boolean s.ota.allowDowngrade).length = 1 := rfl
    simp only [UpdateSettings.blob, List.length_append]
    have := hnumber 3 s.ota.httpsPort.toNat
    have := hnumber 5 s.ota.chunkSize.toNat
    have := hnumber 5 s.ota.maxRetries.toNat
    have := hnumber 5 s.ota.retryBackoffMs.toNat
    have := hnumber 5 s.ota.progressEveryChunks.toNat
    have := hnumber 5 s.ota.maxImageSize.toNat
    have := hnumber 5 s.ota.connectTimeoutMs.toNat
    have := hnumber 5 s.ota.postDownloadDelayMs.toNat
    have := hnumber 5 s.ota.ackSettleMs.toNat
    omega
  rw [blob, List.length_append]
  omega

end Firmware
