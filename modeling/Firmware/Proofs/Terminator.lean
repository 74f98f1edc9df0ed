import Firmware.Proofs.Stored
import Mathlib.Data.List.DropRight
/-!
# Terminator — how long a stored certificate may be

A certificate is loaded with one NUL octet after it, however many of them it was stored with.  It is read into one
octet less than its room, so as to leave place for that NUL, also where what is stored ends in a NUL already.  So a
certificate that fills its room to the last octet with NULs of its own is too large, although it would fit once they are
dropped, and the longest certificate that loads does not load again once it is stored as it was loaded
(`loads_terminated_iff`).
-/
namespace Firmware

inductive Component where
  | deviceCert
  | deviceKey
  | rootCa
deriving DecidableEq, Repr

namespace Component

def key : Component → String
  | .deviceCert => "device_cert"
  | .deviceKey => "device_key"
  | .rootCa => "root_ca"

/-- The octets that a loaded part may have, its NUL among them. -/
def room : Component → Nat
  | .deviceCert | .rootCa => 4096
  | .deviceKey => 2048

theorem key_ne {c other : Component} (h : other ≠ c) : other.key ≠ c.key := by
  cases c <;> cases other <;> first | exact absurd rfl h | decide

end Component

def Certificates.part (certificates : Certificates) : Component → Bytes
  | .deviceCert => certificates.deviceCert
  | .deviceKey => certificates.deviceKey
  | .rootCa => certificates.rootCa

namespace Storage

variable {s : Storage} {c : Component} {pem : Bytes} {k : Nat}

/-! ## Final NULs -/

structure Unterminated (pem : Bytes) : Prop where
  nonempty : pem ≠ []
  last : pem.getLast? ≠ some 0

theorem dropFinalNuls_eq (pem : Bytes) : dropFinalNuls pem = pem.rdropWhile (· == 0) := rfl

theorem dropFinalNuls_append (h : Unterminated pem) (k : Nat) : dropFinalNuls (pem ++ List.replicate k 0) = pem := by
  rw [dropFinalNuls_eq]
  induction k with
  | zero =>
    rw [List.replicate_zero, List.append_nil, List.rdropWhile_eq_self_iff]
    intro hne hzero
    have hlast : pem.getLast hne = 0 := beq_iff_eq.1 hzero
    exact h.last (by rw [List.getLast?_eq_some_getLast hne, hlast])
  | succ k ih =>
    rw [List.replicate_succ', ← List.append_assoc, List.rdropWhile_concat_pos _ _ _ rfl]
    exact ih

theorem unterminated_dropFinalNuls {value : Bytes} (h : dropFinalNuls value ≠ []) :
    Unterminated (dropFinalNuls value) := by
  refine ⟨h, fun hlast => ?_⟩
  have hzero := List.rdropWhile_last_not (· == (0 : UInt8)) value h
  rw [List.getLast?_eq_some_getLast h] at hlast
  exact hzero (beq_iff_eq.2 (Option.some.inj hlast))

/-! ## One part -/

theorem storeCertificate_eq (hs : s.outage = none) (key : String) (value : Bytes) :
    s.storeCertificate key value = .ok (s.put (certificateSlot key) value) := by
  unfold storeCertificate write
  rw [hs]

/-- **What is stored in less octets than the room loads with one NUL**; with more it is too large. -/
theorem loadCertificate_put (hs : s.outage = none) (h : Unterminated pem) (k : Nat) (key : String) (room : Nat) :
    (s.put (certificateSlot key) (pem ++ List.replicate k 0)).loadCertificate key room =
      if pem.length + k < room then .ok (pem ++ [0]) else .error (.tooLarge key) := by
  have hlength : (pem ++ List.replicate k (0 : UInt8)).length = pem.length + k := by simp
  have hpos : 0 < pem.length := List.length_pos_of_ne_nil h.nonempty
  have hvalue : (s.put (certificateSlot key) (pem ++ List.replicate k 0)).get? (certificateSlot key) =
      some (pem ++ List.replicate k 0) := by
    rw [get?_put, if_pos rfl]
  have houtage : (s.put (certificateSlot key) (pem ++ List.replicate k 0)).outage = none := hs
  unfold loadCertificate read
  rw [houtage, hvalue]
  simp only [hlength]
  by_cases hfits : pem.length + k < room
  · have hempty : pem.isEmpty = false := List.isEmpty_eq_false_iff.2 h.nonempty
    have hread : ¬ room - 1 < pem.length + k := by omega
    have hpush : ¬ room < pem.length + 1 := by omega
    simp [hfits, hread, hpush, dropFinalNuls_append h, hempty]
  · have hread : room - 1 < pem.length + k := by omega
    simp [hfits, hread]

theorem loadCertificate_put_of_ne {key other : String} (hne : other ≠ key) (value : Bytes) (room : Nat) :
    (s.put (certificateSlot key) value).loadCertificate other room = s.loadCertificate other room := by
  have hslot : certificateSlot other ≠ certificateSlot key := fun h => hne (congrArg Slot.key h)
  have houtage : (s.put (certificateSlot key) value).outage = s.outage := rfl
  unfold loadCertificate read
  rw [houtage, get?_put, if_neg hslot]

theorem terminated_of_loadCertificate {key : String} {room : Nat} {loaded : Bytes}
    (h : s.loadCertificate key room = .ok loaded) :
    s.outage = none ∧ ∃ pem, Unterminated pem ∧ loaded = pem ++ [0] ∧ pem.length + 1 ≤ room := by
  unfold loadCertificate at h
  split at h
  · cases h
  · cases h
  · cases h
  · rename_i value hread
    simp only at h
    split at h
    · cases h
    rename_i hempty
    split at h
    · cases h
    rename_i hroom
    cases h
    refine ⟨?_, dropFinalNuls value, unterminated_dropFinalNuls (by simpa using hempty), rfl, Nat.not_lt.1 hroom⟩
    unfold read at hread
    split at hread
    · cases hread
    · assumption

/-! ## All three parts -/

theorem loadCertificates_eq_ok_iff {certificates : Certificates} :
    s.loadCertificates = .ok certificates ↔ ∀ c, s.loadCertificate c.key c.room = .ok (certificates.part c) := by
  obtain ⟨deviceCert, deviceKey, rootCa⟩ := certificates
  have hall : (∀ c, s.loadCertificate c.key c.room = .ok (Certificates.part ⟨deviceCert, deviceKey, rootCa⟩ c)) ↔
      s.loadCertificate "device_cert" 4096 = .ok deviceCert ∧ s.loadCertificate "device_key" 2048 = .ok deviceKey ∧
        s.loadCertificate "root_ca" 4096 = .ok rootCa :=
    ⟨fun h => ⟨h .deviceCert, h .deviceKey, h .rootCa⟩, fun ⟨h₁, h₂, h₃⟩ c => by cases c <;> assumption⟩
  rw [hall]
  unfold loadCertificates
  cases s.loadCertificate "device_cert" 4096 <;> cases s.loadCertificate "device_key" 2048 <;>
    cases s.loadCertificate "root_ca" 4096 <;> simp [bind, Except.bind, pure, Except.pure]

def LoadsBeside (s : Storage) (c : Component) : Prop :=
  ∀ other ≠ c, ∃ loaded, s.loadCertificate other.key other.room = .ok loaded

theorem exists_certificates (h : ∀ c : Component, ∃ loaded, s.loadCertificate c.key c.room = .ok loaded) :
    ∃ certificates, s.loadCertificates = .ok certificates := by
  obtain ⟨deviceCert, hcert⟩ := h .deviceCert
  obtain ⟨deviceKey, hkey⟩ := h .deviceKey
  obtain ⟨rootCa, hca⟩ := h .rootCa
  refine ⟨⟨deviceCert, deviceKey, rootCa⟩, loadCertificates_eq_ok_iff.2 fun c => ?_⟩
  cases c <;> assumption

theorem loadCertificates_of_error {e : CertificateError} (hc : s.loadCertificate c.key c.room = .error e)
    (hothers : s.LoadsBeside c) : s.loadCertificates = .error e := by
  unfold loadCertificates
  cases c with
  | deviceCert =>
    rw [show s.loadCertificate "device_cert" 4096 = .error e from hc]
    rfl
  | deviceKey =>
    obtain ⟨deviceCert, hcert⟩ := hothers .deviceCert (by decide)
    rw [show s.loadCertificate "device_cert" 4096 = .ok deviceCert from hcert,
      show s.loadCertificate "device_key" 2048 = .error e from hc]
    rfl
  | rootCa =>
    obtain ⟨deviceCert, hcert⟩ := hothers .deviceCert (by decide)
    obtain ⟨deviceKey, hkey⟩ := hothers .deviceKey (by decide)
    rw [show s.loadCertificate "device_cert" 4096 = .ok deviceCert from hcert,
      show s.loadCertificate "device_key" 2048 = .ok deviceKey from hkey,
      show s.loadCertificate "root_ca" 4096 = .error e from hc]
    rfl

theorem loadsBeside_put (hothers : s.LoadsBeside c) (value : Bytes) :
    (s.put (certificateSlot c.key) value).LoadsBeside c := fun other hother => by
  rw [loadCertificate_put_of_ne (Component.key_ne hother)]
  exact hothers other hother

theorem loadCertificates_put_of_lt (hs : s.outage = none) (hpem : Unterminated pem) (hothers : s.LoadsBeside c)
    (hlt : pem.length + k < c.room) :
    ∃ certificates, (s.put (certificateSlot c.key) (pem ++ List.replicate k 0)).loadCertificates = .ok certificates ∧
      certificates.part c = pem ++ [0] := by
  have hload := loadCertificate_put hs hpem k c.key c.room
  rw [if_pos hlt] at hload
  obtain ⟨certificates, hcertificates⟩ := exists_certificates fun other => by
    by_cases hother : other = c
    · rw [hother]
      exact ⟨_, hload⟩
    · exact loadsBeside_put hothers (pem ++ List.replicate k 0) other hother
  refine ⟨certificates, hcertificates, ?_⟩
  have hpart := loadCertificates_eq_ok_iff.1 hcertificates c
  rw [hload] at hpart
  exact (Except.ok.inj hpart).symm

theorem loadCertificates_put_of_le (hs : s.outage = none) (hpem : Unterminated pem) (hothers : s.LoadsBeside c)
    (hle : c.room ≤ pem.length + k) :
    (s.put (certificateSlot c.key) (pem ++ List.replicate k 0)).loadCertificates = .error (.tooLarge c.key) := by
  have hload := loadCertificate_put hs hpem k c.key c.room
  rw [if_neg (Nat.not_lt.2 hle)] at hload
  exact loadCertificates_of_error hload (loadsBeside_put hothers _)

/-! ## Up to the room of a part -/

/-- A text that fits its room with one NUL, and so many NULs after it that what is stored is no larger either. -/
structure Storable (s : Storage) (c : Component) (pem : Bytes) (k : Nat) : Prop where
  sound : s.outage = none
  text : Unterminated pem
  terminated : pem.length + 1 ≤ c.room
  stored : pem.length + k ≤ c.room
  others : s.LoadsBeside c

/-- Once the text is stored with the NULs after it, all parts load, and this one with a single NUL. -/
def LoadsTerminated (s : Storage) (c : Component) (pem : Bytes) (k : Nat) : Prop :=
  ∃ t certificates, s.storeCertificate c.key (pem ++ List.replicate k 0) = .ok t ∧
    t.loadCertificates = .ok certificates ∧ certificates.part c = pem ++ [0]

/-- Once the part is stored as it was loaded, all parts load as before. -/
def LoadsAgain (s : Storage) (c : Component) (certificates : Certificates) : Prop :=
  ∃ t, s.storeCertificate c.key (certificates.part c) = .ok t ∧ t.loadCertificates = .ok certificates

theorem Storable.loadsTerminated_iff_lt (h : s.Storable c pem k) :
    s.LoadsTerminated c pem k ↔ pem.length + k < c.room := by
  have hstore := storeCertificate_eq h.sound c.key (pem ++ List.replicate k 0)
  constructor
  · rintro ⟨t, certificates, ht, hload, -⟩
    refine Nat.lt_of_not_le fun hle => ?_
    rw [hstore] at ht
    cases ht
    rw [loadCertificates_put_of_le h.sound h.text h.others hle] at hload
    cases hload
  · intro hlt
    obtain ⟨certificates, hload, hpart⟩ := loadCertificates_put_of_lt h.sound h.text h.others hlt
    exact ⟨_, certificates, hstore, hload, hpart⟩

theorem loadsAgain_iff_lt {certificates : Certificates} (hload : s.loadCertificates = .ok certificates) :
    s.LoadsAgain c certificates ↔ (certificates.part c).length < c.room := by
  have hparts := loadCertificates_eq_ok_iff.1 hload
  have hothers : s.LoadsBeside c := fun other _ => ⟨_, hparts other⟩
  obtain ⟨hs, pem, hpem, hpart, -⟩ := terminated_of_loadCertificate (hparts c)
  -- what was loaded is a text that is stored with one NUL
  have hone : certificates.part c = pem ++ List.replicate 1 0 := hpart
  have hstore := storeCertificate_eq hs c.key (certificates.part c)
  have hlength : (certificates.part c).length = pem.length + 1 := by simp [hone]
  rw [LoadsAgain, hstore, hlength]
  constructor
  · rintro ⟨t, ht, hagain⟩
    refine Nat.lt_of_not_le fun hle => ?_
    cases ht
    rw [hone, loadCertificates_put_of_le hs hpem hothers hle] at hagain
    cases hagain
  · intro hlt
    refine ⟨_, rfl, loadCertificates_eq_ok_iff.2 fun other => ?_⟩
    by_cases hother : other = c
    · subst hother
      rw [hone, loadCertificate_put hs hpem, if_pos hlt]
      rfl
    · rw [loadCertificate_put_of_ne (Component.key_ne hother)]
      exact hparts other

/-- **A part loads with a single NUL exactly if what is stored leaves an octet of its room free**; if it fills the room
it is too large.  So a part that was loaded loads again as long as it does not fill its room. -/
theorem loads_terminated_iff (s : Storage) (c : Component) :
    (∀ (pem : Bytes) (k : Nat), s.Storable c pem k →
      (s.LoadsTerminated c pem k ↔ pem.length + k < c.room) ∧
      (pem.length + k = c.room → ∃ t, s.storeCertificate c.key (pem ++ List.replicate k 0) = .ok t ∧
        t.loadCertificates = .error (.tooLarge c.key))) ∧
    ∀ certificates, s.loadCertificates = .ok certificates →
      (s.LoadsAgain c certificates ↔ (certificates.part c).length < c.room) := by
  refine ⟨fun pem k h => ⟨h.loadsTerminated_iff_lt, fun hfull => ?_⟩, fun certificates => loadsAgain_iff_lt⟩
  exact ⟨_, storeCertificate_eq h.sound _ _, loadCertificates_put_of_le h.sound h.text h.others hfull.ge⟩

def provisioned : Storage where
  values := [(certificateSlot "device_cert", [0x41]), (certificateSlot "device_key", [0x42]),
    (certificateSlot "root_ca", [0x43])]

theorem provisioned_loadsBeside (c : Component) : provisioned.LoadsBeside c := fun other _ => by
  cases other with
  | deviceCert => exact ⟨[0x41, 0], rfl⟩
  | deviceKey => exact ⟨[0x42, 0], rfl⟩
  | rootCa => exact ⟨[0x43, 0], rfl⟩

theorem storable_repeated {n k : Nat} (hn : 0 < n) (hk : k ≤ 1) (hroom : n + 1 ≤ Component.deviceCert.room) :
    provisioned.Storable .deviceCert (List.replicate n 0x41) k where
  sound := rfl
  text := by
    refine ⟨by simp; omega, fun hlast => ?_⟩
    rw [List.getLast?_replicate, if_neg (by omega)] at hlast
    cases hlast
  terminated := by rwa [List.length_replicate]
  stored := by
    rw [List.length_replicate]
    omega
  others := provisioned_loadsBeside .deviceCert

theorem longest_certificate_loads :
    provisioned.Storable .deviceCert (List.replicate 4095 0x41) 0 ∧
      provisioned.LoadsTerminated .deviceCert (List.replicate 4095 0x41) 0 ∧
      provisioned.loadCertificates = .ok ⟨[0x41, 0], [0x42, 0], [0x43, 0]⟩ ∧
      provisioned.LoadsAgain .deviceCert ⟨[0x41, 0], [0x42, 0], [0x43, 0]⟩ := by
  have h : provisioned.Storable .deviceCert (List.replicate 4095 0x41) 0 :=
    storable_repeated (by decide) (by decide) (by decide)
  have hload : provisioned.loadCertificates = .ok ⟨[0x41, 0], [0x42, 0], [0x43, 0]⟩ := rfl
  obtain ⟨hterminated, hagain⟩ := loads_terminated_iff provisioned .deviceCert
  refine ⟨h, (hterminated _ 0 h).1.2 ?_, hload, (hagain _ hload).2 (by decide)⟩
  rw [List.length_replicate]
  decide

/-- **A certificate that fills its room together with its NUL does not load.** -/
theorem terminated_certificate_too_large :
    ¬ ∀ (s : Storage) (c : Component) (pem : Bytes) (k : Nat), s.Storable c pem k → s.LoadsTerminated c pem k := by
  intro hloads
  have h : provisioned.Storable .deviceCert (List.replicate 4095 0x41) 1 :=
    storable_repeated (by decide) (by decide) (by decide)
  have hlt := h.loadsTerminated_iff_lt.1 (hloads _ _ _ _ h)
  rw [List.length_replicate] at hlt
  exact absurd hlt (by decide)

end Storage
end Firmware
