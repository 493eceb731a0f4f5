import Mathlib.Tactic.Common
import Mathlib.Data.Nat.Basic
import Mathlib.Algebra.Order.Group.Nat

/-!
# Continuation-bit numbers in base 128

A number is written in little-endian groups of seven bits, and the top bit of a byte says that
another group follows. `encode` gives the shortest form. Its length is governed by powers of 128,
and the two fields of a byte are read off by remainder and comparison. A number has many encodings,
as zero groups may follow at the end; `shortest_iff` says that `encode` is the only one of least
length.
-/

namespace HotaruMqtt.Library.Base128

/-- The groups of a number below `128 ^ fuel`. -/
def groups : ℕ → ℕ → List UInt8
  | 0, _ => []
  | fuel + 1, value =>
      if value / 128 = 0 then [UInt8.ofNat (value % 128)]
      else UInt8.ofNat (value % 128 + 128) :: groups fuel (value / 128)

/-- The shortest encoding of a number. -/
def encode (value : ℕ) : List UInt8 := groups (value + 1) value

/-- Any fuel above the number gives all its groups. -/
theorem groups_fuel (fuel fuel' value : ℕ) (h : value < fuel) (h' : value < fuel') :
    groups fuel value = groups fuel' value := by
  induction fuel generalizing fuel' value with
  | zero => omega
  | succ fuel ih =>
    obtain ⟨fuel', rfl⟩ : ∃ n, fuel' = n + 1 := ⟨fuel' - 1, by omega⟩
    by_cases hlast : value / 128 = 0
    · simp only [groups, if_pos hlast]
    · simp only [groups, if_neg hlast]
      rw [ih fuel' (value / 128) (by omega) (by omega)]

theorem encode_of_lt {value : ℕ} (h : value < 128) : encode value = [UInt8.ofNat value] := by
  have hdiv : value / 128 = 0 := by omega
  simp only [encode, groups, if_pos hdiv, Nat.mod_eq_of_lt h]

/-- A number of more than seven bits is its lowest group and then the groups of the rest. -/
theorem encode_of_le {value : ℕ} (h : 128 ≤ value) :
    encode value = UInt8.ofNat (value % 128 + 128) :: encode (value / 128) := by
  have hdiv : ¬ value / 128 = 0 := by omega
  simp only [encode]
  rw [groups, if_neg hdiv, groups_fuel value (value / 128 + 1) _ (by omega) (by omega)]

/-- Induction along the groups of a number. -/
theorem encode_induction {motive : ℕ → Prop} (last : ∀ value < 128, motive value)
    (more : ∀ value, 128 ≤ value → motive (value / 128) → motive value) (value : ℕ) :
    motive value := by
  induction value using Nat.strong_induction_on with
  | _ value ih =>
    by_cases h : value < 128
    · exact last value h
    · exact more value (by omega) (ih _ (by omega))

theorem encode_ne_nil (value : ℕ) : encode value ≠ [] := by
  by_cases h : value < 128
  · simp [encode_of_lt h]
  · simp [encode_of_le (Nat.le_of_not_lt h)]

/-- A number below `128 ^ (k + 1)` needs at most `k + 1` groups. -/
theorem length_encode_le (k value : ℕ) (h : value < 128 ^ (k + 1)) :
    (encode value).length ≤ k + 1 := by
  induction k generalizing value with
  | zero =>
    rw [encode_of_lt (by omega)]
    simp
  | succ k ih =>
    by_cases hlast : value < 128
    · rw [encode_of_lt hlast]
      simp
    · rw [encode_of_le (by omega), List.length_cons]
      have hquot : value / 128 < 128 ^ (k + 1) := by
        rw [Nat.div_lt_iff_lt_mul (by decide)]
        rw [Nat.pow_succ] at h
        omega
      have := ih _ hquot
      omega

/-- A number from `128 ^ k` on needs more than `k` groups. -/
theorem lt_length_encode (k value : ℕ) (h : 128 ^ k ≤ value) : k < (encode value).length := by
  induction k generalizing value with
  | zero => exact List.length_pos_iff.mpr (encode_ne_nil value)
  | succ k ih =>
    have hpow : 1 ≤ 128 ^ k := Nat.one_le_pow _ _ (by decide)
    rw [Nat.pow_succ] at h
    rw [encode_of_le (by omega), List.length_cons]
    have hquot : 128 ^ k ≤ value / 128 := by
      rw [Nat.le_div_iff_mul_le (by decide)]
      omega
    have := ih _ hquot
    omega

theorem length_encode_mono {value value' : ℕ} (h : value ≤ value') :
    (encode value).length ≤ (encode value').length := by
  obtain ⟨k, hk⟩ : ∃ k, (encode value').length = k + 1 :=
    ⟨_, (Nat.succ_pred_eq_of_pos (List.length_pos_iff.mpr (encode_ne_nil value'))).symm⟩
  rw [hk]
  apply length_encode_le
  by_contra hlong
  have := lt_length_encode (k + 1) value' (by omega)
  omega

/-- The lower seven bits of a byte. -/
theorem payload_eq_mod (byte : UInt8) : (byte &&& 0x7F).toNat = byte.toNat % 128 := by
  rw [UInt8.toNat_and]
  exact Nat.and_two_pow_sub_one_eq_mod byte.toNat 7

/-- The top bit of a byte. -/
theorem continuation_eq_zero_iff (byte : UInt8) : byte &&& 0x80 = 0 ↔ byte.toNat < 128 := by
  have h : ∀ value : Fin 256, (UInt8.ofFin value &&& 0x80 = 0) ↔ value.val < 128 := by
    decide +kernel
  simpa using h byte.toFin

theorem toNat_lastGroup {value : ℕ} (h : value < 128) : (UInt8.ofNat value).toNat = value :=
  UInt8.toNat_ofNat_of_lt (by change value < 256; omega)

theorem toNat_moreGroup (value : ℕ) : (UInt8.ofNat (value % 128 + 128)).toNat = value % 128 + 128 :=
  UInt8.toNat_ofNat_of_lt (by change _ < 256; omega)

/-- Setting the top bit of a seven-bit group adds 128. -/
theorem setContinuation (value : ℕ) :
    UInt8.ofNat (value % 128) ||| 0x80 = UInt8.ofNat (value % 128 + 128) := by
  have h : ∀ group : Fin 128, UInt8.ofNat group.val ||| 0x80 = UInt8.ofNat (group.val + 128) := by
    decide +kernel
  exact h ⟨value % 128, Nat.mod_lt _ (by decide)⟩

/-- The bytes are groups of the number: every group but the last one has the top bit set. -/
inductive Denotes : ℕ → List UInt8 → Prop where
  | last (byte : UInt8) (h : byte.toNat < 128) : Denotes byte.toNat [byte]
  | more (byte : UInt8) (h : 128 ≤ byte.toNat) {value : ℕ} {bytes : List UInt8}
      (hrest : Denotes value bytes) : Denotes (byte.toNat - 128 + 128 * value) (byte :: bytes)

/-- No encoding of the number is shorter. -/
def Shortest (value : ℕ) (bytes : List UInt8) : Prop :=
  Denotes value bytes ∧ ∀ other, Denotes value other → bytes.length ≤ other.length

theorem Denotes.ne_nil {value : ℕ} {bytes : List UInt8} (h : Denotes value bytes) :
    bytes ≠ [] := by
  cases h with
  | last | more => exact List.cons_ne_nil _ _

theorem denotes_encode (value : ℕ) : Denotes value (encode value) := by
  induction value using encode_induction with
  | last value hlast =>
    have h := Denotes.last (UInt8.ofNat value) (by rw [toNat_lastGroup hlast]; exact hlast)
    rw [toNat_lastGroup hlast] at h
    rw [encode_of_lt hlast]
    exact h
  | more value hmore ih =>
    have hbyte := toNat_moreGroup value
    have h := Denotes.more (UInt8.ofNat (value % 128 + 128)) (by omega) ih
    have hvalue : value % 128 + 128 - 128 + 128 * (value / 128) = value := by omega
    rw [hbyte, hvalue] at h
    rw [encode_of_le hmore]
    exact h

/-- A group in front of the groups of a positive number. -/
theorem encode_group {byte : UInt8} (h : 128 ≤ byte.toNat) {value : ℕ} (hvalue : 0 < value) :
    encode (byte.toNat - 128 + 128 * value) = byte :: encode value := by
  have hbyte : byte.toNat < 256 := byte.toNat_lt
  have hquot : (byte.toNat - 128 + 128 * value) / 128 = value := by omega
  have hgroup : (byte.toNat - 128 + 128 * value) % 128 + 128 = byte.toNat := by omega
  rw [encode_of_le (by omega), hquot, hgroup, UInt8.ofNat_toNat]

theorem Denotes.length_encode_le {value : ℕ} {bytes : List UInt8} (h : Denotes value bytes) :
    (encode value).length ≤ bytes.length := by
  induction h with
  | last byte hlast =>
    rw [encode_of_lt hlast]
    exact Nat.le_refl _
  | @more byte hmore value bytes hrest ih =>
    rcases Nat.eq_zero_or_pos value with rfl | hpos
    · have hbyte : byte.toNat < 256 := byte.toNat_lt
      rw [encode_of_lt (by omega), List.length_singleton, List.length_cons]
      omega
    · rw [encode_group hmore hpos, List.length_cons, List.length_cons]
      omega

/-- An encoding that is not longer than the shortest one is the shortest one. -/
theorem Denotes.eq_encode {value : ℕ} {bytes : List UInt8} (h : Denotes value bytes)
    (hlength : bytes.length ≤ (encode value).length) : bytes = encode value := by
  induction h with
  | last byte hlast => rw [encode_of_lt hlast, UInt8.ofNat_toNat]
  | @more byte hmore value bytes hrest ih =>
    rcases Nat.eq_zero_or_pos value with rfl | hpos
    · have hbyte : byte.toNat < 256 := byte.toNat_lt
      have hbytes := List.length_pos_iff.mpr hrest.ne_nil
      rw [encode_of_lt (by omega), List.length_singleton, List.length_cons] at hlength
      omega
    · rw [encode_group hmore hpos, List.length_cons, List.length_cons] at hlength
      rw [encode_group hmore hpos, ← ih (by omega)]

/-- `encode` is the one encoding of least length. -/
theorem shortest_iff {value : ℕ} {bytes : List UInt8} :
    Shortest value bytes ↔ bytes = encode value := by
  constructor
  · rintro ⟨hdenotes, hleast⟩
    exact hdenotes.eq_encode (hleast _ (denotes_encode value))
  · rintro rfl
    exact ⟨denotes_encode value, fun other hother ↦ hother.length_encode_le⟩

end HotaruMqtt.Library.Base128
