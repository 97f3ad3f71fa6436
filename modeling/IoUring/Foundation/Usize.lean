import Mathlib.Algebra.Group.Nat.Defs
import Mathlib.Order.Basic

/-!
# Arithmetic of `usize`

Additions and subtractions that do not wrap, and where they do: `none` stands
for the overflow, which `checked_add` reports and `+` panics at.
-/

namespace IoUring.Foundation

/-- `usize::checked_add`. -/
def checkedAdd (x y : UInt64) : Option UInt64 :=
  if x.toNat + y.toNat < 2 ^ 64 then some (x + y) else none

/-- The subtraction that must not go below zero. -/
def checkedSub (x y : UInt64) : Option UInt64 :=
  if y.toNat ≤ x.toNat then some (x - y) else none

variable {x y : UInt64}

theorem checkedAdd_of_lt (h : x.toNat + y.toNat < 2 ^ 64) :
    ∃ z, checkedAdd x y = some z ∧ z.toNat = x.toNat + y.toNat :=
  ⟨x + y, if_pos h, by rw [UInt64.toNat_add, Nat.mod_eq_of_lt h]⟩

theorem checkedAdd_of_ge (h : 2 ^ 64 ≤ x.toNat + y.toNat) : checkedAdd x y = none :=
  if_neg (Nat.not_lt.mpr h)

theorem checkedSub_of_le (h : y.toNat ≤ x.toNat) :
    ∃ z, checkedSub x y = some z ∧ z.toNat = x.toNat - y.toNat :=
  ⟨x - y, if_pos h, UInt64.toNat_sub_of_le _ _ (UInt64.le_iff_toNat_le.mpr h)⟩

theorem toNat_min (x y : UInt64) : (min x y).toNat = min x.toNat y.toNat := by
  rw [show min x y = if x ≤ y then x else y from rfl]
  split
  · rename_i hle
    rw [Nat.min_eq_left (UInt64.le_iff_toNat_le.mp hle)]
  · rename_i hlt
    rw [Nat.min_eq_right (Nat.le_of_not_le fun hle => hlt (UInt64.le_iff_toNat_le.mpr hle))]

theorem toNat_max (x y : UInt64) : (max x y).toNat = max x.toNat y.toNat := by
  rw [show max x y = if x ≤ y then y else x from rfl]
  split
  · rename_i hle
    rw [Nat.max_eq_right (UInt64.le_iff_toNat_le.mp hle)]
  · rename_i hlt
    rw [Nat.max_eq_left (Nat.le_of_not_le fun hle => hlt (UInt64.le_iff_toNat_le.mpr hle))]

end IoUring.Foundation
