import Mathlib.Data.Nat.ModEq
import Mathlib.Data.Nat.Bitwise

/-!
# Counters that wrap

A free-running counter is read modulo a power of two, while the argument about
it counts positions without bound. Two positions less than one turn apart can
be told from their wrapped values, and their distance is the wrapped
difference. A mask one below a power of two that divides the turn picks the
position modulo that power.
-/

namespace IoUring.Foundation

/-- Positions less than one turn apart have different remainders. -/
theorem mod_eq_mod_iff_of_lt {M h t : Nat} (hle : h ≤ t) (hlt : t < h + M) :
    t % M = h % M ↔ t = h := by
  constructor
  · intro heq
    have hdvd : M ∣ t - h := (Nat.modEq_iff_dvd' hle).mp heq.symm
    have hzero : t - h = 0 := Nat.eq_zero_of_dvd_of_lt hdvd (by omega)
    omega
  · rintro rfl
    rfl

/-- The wrapped difference of two positions less than one turn apart. -/
theorem mod_sub_mod_of_lt {M h t : Nat} (hle : h ≤ t) (hlt : t < h + M) :
    (M - h % M + t % M) % M = t - h := by
  obtain ⟨d, rfl⟩ := Nat.exists_eq_add_of_le hle
  have hr : h % M < M := Nat.mod_lt h (by omega)
  have ht : (h + d) % M = if h % M + d < M then h % M + d else h % M + d - M := by
    rw [Nat.add_mod, Nat.mod_eq_of_lt (show d < M by omega)]
    split
    · rename_i hfits
      exact Nat.mod_eq_of_lt hfits
    · rw [Nat.mod_eq_sub_mod (by omega), Nat.mod_eq_of_lt (by omega)]
  rw [ht]
  split
  · have heq : M - h % M + (h % M + d) = M + d := by omega
    rw [heq, Nat.add_mod_left, Nat.mod_eq_of_lt (by omega)]
    omega
  · have heq : M - h % M + (h % M + d - M) = d := by omega
    rw [heq, Nat.mod_eq_of_lt (by omega)]
    omega

section UInt32

variable {h t n k : Nat}

/-- Wrapped counters of positions less than a turn apart agree only at one position. -/
theorem ofNat_eq_ofNat_iff (hle : h ≤ t) (hlt : t < h + 2 ^ 32) :
    UInt32.ofNat t = UInt32.ofNat h ↔ t = h := by
  rw [← UInt32.toNat_inj, UInt32.toNat_ofNat', UInt32.toNat_ofNat']
  exact mod_eq_mod_iff_of_lt hle hlt

/-- `wrapping_sub` of two counters less than a turn apart is their distance. -/
theorem toNat_ofNat_sub_ofNat (hle : h ≤ t) (hlt : t < h + 2 ^ 32) :
    (UInt32.ofNat t - UInt32.ofNat h).toNat = t - h := by
  rw [UInt32.toNat_sub, UInt32.toNat_ofNat', UInt32.toNat_ofNat']
  exact mod_sub_mod_of_lt hle hlt

/-- A counter under a mask one below a power of two is its position modulo that power. -/
theorem toNat_ofNat_and {m : UInt32} (hk : k ≤ 32) (hm : m.toNat + 1 = 2 ^ k) :
    (UInt32.ofNat n &&& m).toNat = n % 2 ^ k := by
  have hmask : m.toNat = 2 ^ k - 1 := by omega
  rw [UInt32.toNat_and, hmask, Nat.and_two_pow_sub_one_eq_mod, UInt32.toNat_ofNat']
  exact Nat.mod_mod_of_dvd n (Nat.pow_dvd_pow 2 hk)

/-- Any two counters are two positions less than a turn apart. -/
theorem ofNat_toNat_add_sub (h t : UInt32) :
    UInt32.ofNat (h.toNat + (t - h).toNat) = t := by
  rw [UInt32.ofNat_add, UInt32.ofNat_toNat, UInt32.ofNat_toNat, UInt32.add_comm,
    UInt32.sub_add_cancel]

/-- Two counters are apart unless they are equal. -/
theorem toNat_sub_eq_zero_iff {c d : UInt32} : (d - c).toNat = 0 ↔ c = d := by
  constructor
  · intro h
    have hzero : d - c = 0 := UInt32.toNat_inj.mp h
    rw [← UInt32.sub_add_cancel d c, hzero, UInt32.zero_add]
  · rintro rfl
    rw [UInt32.sub_self, UInt32.toNat_zero]

/-- A counter that is not yet at another comes one closer to it with each step. -/
theorem toNat_sub_eq_succ {c d : UInt32} (hne : c ≠ d) :
    (d - c).toNat = (d - (c + 1)).toNat + 1 := by
  have hpos : 0 < (d - c).toNat := Nat.pos_of_ne_zero (mt toNat_sub_eq_zero_iff.mp hne)
  have hone : (1 : UInt32) ≤ d - c := UInt32.le_iff_toNat_le.mpr hpos
  have hnext : d - (c + 1) = d - c - 1 := by grind
  rw [hnext, UInt32.toNat_sub_of_le _ _ hone, UInt32.toNat_one, Nat.sub_add_cancel hpos]

end UInt32

section UInt16

variable {h t n k : Nat}

theorem ofNat_eq_ofNat_iff₁₆ (hle : h ≤ t) (hlt : t < h + 2 ^ 16) :
    UInt16.ofNat t = UInt16.ofNat h ↔ t = h := by
  rw [← UInt16.toNat_inj, UInt16.toNat_ofNat', UInt16.toNat_ofNat']
  exact mod_eq_mod_iff_of_lt hle hlt

theorem toNat_ofNat_and₁₆ {m : UInt16} (hk : k ≤ 16) (hm : m.toNat + 1 = 2 ^ k) :
    (UInt16.ofNat n &&& m).toNat = n % 2 ^ k := by
  have hmask : m.toNat = 2 ^ k - 1 := by omega
  rw [UInt16.toNat_and, hmask, Nat.and_two_pow_sub_one_eq_mod, UInt16.toNat_ofNat']
  exact Nat.mod_mod_of_dvd n (Nat.pow_dvd_pow 2 hk)

end UInt16

end IoUring.Foundation
