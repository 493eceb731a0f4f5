import Mathlib.Tactic.Common
import Mathlib.Algebra.Order.Group.Nat

/-!
# Bytes, fixed-width integers and strings on the wire

`Arc<str>` is `String`, whose values carry a proof that their bytes are valid UTF-8, and `Bytes`
is a list of bytes. Big-endian integers are written by quotient and remainder. A length that is
cast to sixteen bits wraps, as the cast of the source does.
-/

namespace HotaruMqtt

abbrev Bytes := List UInt8

/-- `u16::to_be_bytes`. -/
def toBeBytes16 (value : UInt16) : Bytes :=
  [UInt8.ofNat (value.toNat / 256), UInt8.ofNat (value.toNat % 256)]

/-- `u16::from_be_bytes`. -/
def fromBeBytes16 (high low : UInt8) : UInt16 := UInt16.ofNat (high.toNat * 256 + low.toNat)

/-- `u32::to_be_bytes`. -/
def toBeBytes32 (value : UInt32) : Bytes :=
  [UInt8.ofNat (value.toNat / 2 ^ 24), UInt8.ofNat (value.toNat / 2 ^ 16 % 256),
    UInt8.ofNat (value.toNat / 2 ^ 8 % 256), UInt8.ofNat (value.toNat % 256)]

/-- `u32::from_be_bytes`. -/
def fromBeBytes32 (b₀ b₁ b₂ b₃ : UInt8) : UInt32 :=
  UInt32.ofNat (((b₀.toNat * 256 + b₁.toNat) * 256 + b₂.toNat) * 256 + b₃.toNat)

@[simp]
theorem length_toBeBytes16 (value : UInt16) : (toBeBytes16 value).length = 2 := rfl

theorem toNat_byte {value : ℕ} (h : value < 256) : (UInt8.ofNat value).toNat = value :=
  UInt8.toNat_ofNat_of_lt h

/-- Two bytes in network order give their number back. -/
theorem fromBeBytes16_toBeBytes16 (value : UInt16) :
    fromBeBytes16 (UInt8.ofNat (value.toNat / 256)) (UInt8.ofNat (value.toNat % 256)) = value := by
  have hlt : value.toNat < 65536 := value.toNat_lt
  unfold fromBeBytes16
  rw [toNat_byte (by omega), toNat_byte (by omega)]
  have hvalue : value.toNat / 256 * 256 + value.toNat % 256 = value.toNat := by omega
  rw [hvalue, UInt16.ofNat_toNat]

theorem fromBeBytes32_toBeBytes32 (value : UInt32) :
    fromBeBytes32 (UInt8.ofNat (value.toNat / 2 ^ 24)) (UInt8.ofNat (value.toNat / 2 ^ 16 % 256))
      (UInt8.ofNat (value.toNat / 2 ^ 8 % 256)) (UInt8.ofNat (value.toNat % 256)) = value := by
  have hlt : value.toNat < 4294967296 := value.toNat_lt
  unfold fromBeBytes32
  rw [toNat_byte (by omega), toNat_byte (by omega), toNat_byte (by omega), toNat_byte (by omega)]
  have hvalue : ((value.toNat / 2 ^ 24 * 256 + value.toNat / 2 ^ 16 % 256) * 256 +
      value.toNat / 2 ^ 8 % 256) * 256 + value.toNat % 256 = value.toNat := by omega
  rw [hvalue, UInt32.ofNat_toNat]

theorem toNat_fromBeBytes16 (high low : UInt8) :
    (fromBeBytes16 high low).toNat = high.toNat * 256 + low.toNat := by
  have hhigh : high.toNat < 256 := high.toNat_lt
  have hlow : low.toNat < 256 := low.toNat_lt
  exact UInt16.toNat_ofNat_of_lt (by change _ < 65536; omega)

/-- Every two bytes are those of a number. -/
theorem toBeBytes16_fromBeBytes16 (high low : UInt8) :
    toBeBytes16 (fromBeBytes16 high low) = [high, low] := by
  have hhigh : high.toNat < 256 := high.toNat_lt
  have hlow : low.toNat < 256 := low.toNat_lt
  have hvalue := toNat_fromBeBytes16 high low
  have hquot : (high.toNat * 256 + low.toNat) / 256 = high.toNat := by omega
  have hrem : (high.toNat * 256 + low.toNat) % 256 = low.toNat := by omega
  rw [toBeBytes16, hvalue, hquot, hrem, UInt8.ofNat_toNat, UInt8.ofNat_toNat]

theorem toBeBytes32_fromBeBytes32 (b₀ b₁ b₂ b₃ : UInt8) :
    toBeBytes32 (fromBeBytes32 b₀ b₁ b₂ b₃) = [b₀, b₁, b₂, b₃] := by
  have h₀ : b₀.toNat < 256 := b₀.toNat_lt
  have h₁ : b₁.toNat < 256 := b₁.toNat_lt
  have h₂ : b₂.toNat < 256 := b₂.toNat_lt
  have h₃ : b₃.toNat < 256 := b₃.toNat_lt
  have hvalue : (fromBeBytes32 b₀ b₁ b₂ b₃).toNat =
      ((b₀.toNat * 256 + b₁.toNat) * 256 + b₂.toNat) * 256 + b₃.toNat :=
    UInt32.toNat_ofNat_of_lt (by change _ < 4294967296; omega)
  rw [toBeBytes32, hvalue]
  simp only [List.cons.injEq, and_true, ← UInt8.toNat_inj]
  refine ⟨?_, ?_, ?_, ?_⟩ <;> rw [toNat_byte (by omega)] <;> omega

/-- The cast `len as u16`: lengths are taken modulo `2 ^ 16`. -/
def asU16 (len : ℕ) : UInt16 := UInt16.ofNat len

/-- The cast of a length keeps its lower sixteen bits. -/
theorem toNat_asU16 (len : ℕ) : (asU16 len).toNat = len % 65536 := by
  simp [asU16]

theorem toNat_asU16_of_le {len : ℕ} (h : len ≤ 65535) : (asU16 len).toNat = len := by
  rw [toNat_asU16]
  omega

/-- `str::as_bytes`. -/
def asBytes (s : String) : Bytes := s.toByteArray.data.toList

/-- `std::str::from_utf8`. -/
def fromUtf8 (bytes : Bytes) : Option String := String.fromUTF8? ⟨⟨bytes⟩⟩

/-- The bytes of a string are read as that string. -/
@[simp]
theorem fromUtf8_asBytes (s : String) : fromUtf8 (asBytes s) = some s := by
  unfold fromUtf8 asBytes String.fromUTF8?
  rw [dif_pos s.isValidUTF8]
  rfl

theorem asBytes_of_fromUtf8 {bytes : Bytes} {s : String} (h : fromUtf8 bytes = some s) :
    asBytes s = bytes := by
  unfold fromUtf8 String.fromUTF8? at h
  split at h
  · cases h
    rfl
  · cases h

end HotaruMqtt
