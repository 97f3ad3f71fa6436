import Mathlib.Algebra.Group.Nat.Defs
import Mathlib.Algebra.Group.Int.Defs

/-!
# Casts between integer types

`as` keeps the low bits: a cast to a narrower type takes the value modulo its
width, and a cast between signed and unsigned reads the same bits anew.
-/

namespace IoUring.Foundation

/-- The bits of an unsigned value read as a signed one. -/
theorem toInt_toInt64 (x : UInt64) :
    x.toInt64.toInt = if x.toNat < 2 ^ 63 then (x.toNat : Int) else x.toNat - 2 ^ 64 := by
  have hbits : x.toInt64.toInt = x.toBitVec.toInt := rfl
  rw [hbits, BitVec.toInt_eq_toNat_cond]
  change (if 2 * x.toNat < 2 ^ 64 then (x.toNat : Int) else (x.toNat : Int) - (2 ^ 64 : Nat)) = _
  split <;> split <;> omega

/-- The bits of a signed value read as an unsigned one. -/
theorem toNat_toUInt64 (x : Int64) : (x.toUInt64.toNat : Int) = x.toInt % 2 ^ 64 := by
  have hsigned : x.toInt = _ := toInt_toInt64 x.toUInt64
  have hlt := x.toUInt64.toNat_lt
  rw [hsigned]
  split <;> omega

/-- `as u32` of a signed 64-bit value. -/
theorem toNat_toUInt32 (x : Int64) : (x.toUInt64.toUInt32.toNat : Int) = x.toInt % 2 ^ 32 := by
  have hwide := toNat_toUInt64 x
  rw [UInt64.toNat_toUInt32]
  omega

/-- `as u16` of an unsigned 32-bit value. -/
theorem toNat_toUInt16 (x : UInt32) : (x.toUInt16.toNat : Int) = (x.toNat : Int) % 2 ^ 16 := by
  rw [UInt32.toNat_toUInt16]
  omega

/-- `as u32` of an unsigned 64-bit value never makes it larger. -/
theorem toNat_toUInt32_le (x : UInt64) : x.toUInt32.toNat ≤ x.toNat := by
  rw [UInt64.toNat_toUInt32]
  exact Nat.mod_le _ _

/-- And it keeps exactly the values that fit. -/
theorem toNat_toUInt32_eq_iff (x : UInt64) :
    x.toUInt32.toNat = x.toNat ↔ x.toNat < UInt32.size := by
  constructor
  · intro h
    rw [← h]
    exact x.toUInt32.toNat_lt
  · intro h
    rw [UInt64.toNat_toUInt32]
    exact Nat.mod_eq_of_lt h

theorem toUInt32_eq_iff (x y : Int64) :
    x.toUInt64.toUInt32 = y.toUInt64.toUInt32 ↔ x.toInt % 2 ^ 32 = y.toInt % 2 ^ 32 := by
  rw [← UInt32.toNat_inj, ← Int.natCast_inj, toNat_toUInt32, toNat_toUInt32]

theorem toUInt16_eq_iff (x y : UInt32) :
    x.toUInt16 = y.toUInt16 ↔ (x.toNat : Int) % 2 ^ 16 = (y.toNat : Int) % 2 ^ 16 := by
  rw [← UInt16.toNat_inj, ← Int.natCast_inj, toNat_toUInt16, toNat_toUInt16]

end IoUring.Foundation
