import IoUring.Foundation.ByteField
import Mathlib.Data.Nat.Digits.Lemmas
import Mathlib.Logic.Equiv.Defs

/-!
# Packed types

The values of a packed type are the byte strings of one length: a little-endian
word, an array of bytes, and a record of packed fields that lie behind each
other without padding. Reading undoes writing, and writing undoes reading.
-/

namespace IoUring.Foundation

class Packed (E : Type) where
  size : Nat
  bytes : E → List UInt8
  ofBytes : List UInt8 → E
  length_bytes (e : E) : (bytes e).length = size
  ofBytes_bytes (e : E) : ofBytes (bytes e) = e
  bytes_ofBytes {data : List UInt8} (h : data.length = size) : bytes (ofBytes data) = data

attribute [simp] Packed.length_bytes Packed.ofBytes_bytes

namespace Packed

/-- Equal bytes are bytes of one value. -/
theorem bytes_injective (E : Type) [Packed E] : Function.Injective (bytes (E := E)) := by
  intro e e' h
  rw [← ofBytes_bytes e, h, ofBytes_bytes]

/-! ## Words -/

/-- The number that bytes spell, the least significant first. -/
def spelled (data : List UInt8) : Nat := Nat.ofDigits 256 (data.map UInt8.toNat)

theorem spelled_lt (data : List UInt8) : spelled data < 256 ^ data.length := by
  have h := Nat.ofDigits_lt_base_pow_length' (b := 254) (l := data.map UInt8.toNat) (by
    intro x hx
    obtain ⟨byte, -, rfl⟩ := List.mem_map.mp hx
    exact byte.toNat_lt)
  rwa [List.length_map] at h

/-- The lowest bytes of a number spell it as far as they reach. -/
theorem spelled_littleEndian (n x : Nat) : spelled (littleEndian n x) = x % 256 ^ n := by
  induction n generalizing x with
  | zero => simp [spelled, littleEndian, Nat.mod_one]
  | succ n ih =>
      calc
        spelled (littleEndian (n + 1) x)
            = (UInt8.ofNat x).toNat + 256 * spelled (littleEndian n (x / 256)) := rfl
        _ = x % 256 + 256 * (x / 256 % 256 ^ n) := by rw [UInt8.toNat_ofNat', ih]
        _ = x % 256 ^ (n + 1) := by rw [Nat.pow_succ', Nat.mod_mul]

theorem littleEndian_spelled (data : List UInt8) :
    littleEndian data.length (spelled data) = data := by
  induction data with
  | nil => rfl
  | cons byte rest ih =>
      have hbyte := byte.toNat_lt
      have hspelled : spelled (byte :: rest) = byte.toNat + 256 * spelled rest := rfl
      rw [List.length_cons, littleEndian, hspelled]
      congr 1
      · apply UInt8.toNat_inj.mp
        rw [UInt8.toNat_ofNat']
        omega
      · have hdiv : (byte.toNat + 256 * spelled rest) / 256 = spelled rest := by omega
        rw [hdiv, ih]

/-- What fits into `n` bytes is read back from its `n` lowest bytes. -/
theorem spelled_littleEndian_of_lt {n x : Nat} (h : x < 256 ^ n) :
    spelled (littleEndian n x) = x := by
  rw [spelled_littleEndian, Nat.mod_eq_of_lt h]

theorem littleEndian_spelled_of_length {n : Nat} {data : List UInt8} (h : data.length = n) :
    littleEndian n (spelled data) = data := by
  rw [← h, littleEndian_spelled]

theorem spelled_lt_of_length {n : Nat} {data : List UInt8} (h : data.length = n) :
    spelled data < 256 ^ n := by
  rw [← h]
  exact spelled_lt data

instance : Packed UInt8 where
  size := 1
  bytes x := littleEndian 1 x.toNat
  ofBytes data := .ofNat (spelled data)
  length_bytes x := length_littleEndian 1 x.toNat
  ofBytes_bytes x := by
    rw [spelled_littleEndian_of_lt x.toNat_lt, UInt8.ofNat_toNat]
  bytes_ofBytes h := by
    rw [UInt8.toNat_ofNat_of_lt' (spelled_lt_of_length h), littleEndian_spelled_of_length h]

instance : Packed UInt16 where
  size := 2
  bytes x := littleEndian 2 x.toNat
  ofBytes data := .ofNat (spelled data)
  length_bytes x := length_littleEndian 2 x.toNat
  ofBytes_bytes x := by
    rw [spelled_littleEndian_of_lt x.toNat_lt, UInt16.ofNat_toNat]
  bytes_ofBytes h := by
    rw [UInt16.toNat_ofNat_of_lt' (spelled_lt_of_length h), littleEndian_spelled_of_length h]

instance : Packed UInt32 where
  size := 4
  bytes x := littleEndian 4 x.toNat
  ofBytes data := .ofNat (spelled data)
  length_bytes x := length_littleEndian 4 x.toNat
  ofBytes_bytes x := by
    rw [spelled_littleEndian_of_lt x.toNat_lt, UInt32.ofNat_toNat]
  bytes_ofBytes h := by
    rw [UInt32.toNat_ofNat_of_lt' (spelled_lt_of_length h), littleEndian_spelled_of_length h]

instance : Packed UInt64 where
  size := 8
  bytes x := littleEndian 8 x.toNat
  ofBytes data := .ofNat (spelled data)
  length_bytes x := length_littleEndian 8 x.toNat
  ofBytes_bytes x := by
    rw [spelled_littleEndian_of_lt x.toNat_lt, UInt64.ofNat_toNat]
  bytes_ofBytes h := by
    rw [UInt64.toNat_ofNat_of_lt' (spelled_lt_of_length h), littleEndian_spelled_of_length h]

/-! ## Arrays and records -/

instance (n : Nat) : Packed (Vector UInt8 n) where
  size := n
  bytes v := v.toList
  ofBytes data := Vector.ofFn fun i => data.getD i 0
  length_bytes v := v.length_toList
  ofBytes_bytes v := by
    apply Vector.ext
    intro i hi
    simp [List.getD_eq_getElem?_getD]
  bytes_ofBytes h := by
    apply List.ext_getElem
    · simpa using h.symm
    · intro i hi hi'
      simp [List.getD_eq_getElem?_getD, hi']

variable {A B : Type} [Packed A] [Packed B]

instance : Packed (A × B) where
  size := size A + size B
  bytes p := bytes p.1 ++ bytes p.2
  ofBytes data := (ofBytes (data.take (size A)), ofBytes (data.drop (size A)))
  length_bytes p := by simp
  ofBytes_bytes p := by
    rw [List.take_left' (length_bytes p.1), List.drop_left' (length_bytes p.1), ofBytes_bytes,
      ofBytes_bytes]
  bytes_ofBytes h := by
    rw [bytes_ofBytes (by simp [h]), bytes_ofBytes (by simp [h]), List.take_append_drop]

/-- A record is packed as the tuple of its fields. -/
@[reducible] def ofEquiv (e : B ≃ A) : Packed B where
  size := size A
  bytes b := bytes (e b)
  ofBytes data := e.symm (ofBytes data)
  length_bytes b := length_bytes (e b)
  ofBytes_bytes b := by rw [ofBytes_bytes, e.symm_apply_apply]
  bytes_ofBytes h := by rw [e.apply_symm_apply, bytes_ofBytes h]

instance : Packed Int32 := ofEquiv (A := UInt32)
  { toFun := Int32.toUInt32
    invFun := UInt32.toInt32
    left_inv := Int32.toInt32_toUInt32
    right_inv := UInt32.toUInt32_toInt32 }

end Packed

end IoUring.Foundation
