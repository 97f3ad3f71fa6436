/-!
# Words of flag bits

Adding bits to a word and asking for bits of it are `|||` and `&&&`; asking
distributes over adding.
-/

namespace IoUring.Foundation

theorem and_or_distrib_right₈ (x y z : UInt8) : (x ||| y) &&& z = x &&& z ||| y &&& z :=
  UInt8.toBitVec_inj.mp BitVec.and_or_distrib_right

theorem and_or_distrib_right₃₂ (x y z : UInt32) : (x ||| y) &&& z = x &&& z ||| y &&& z :=
  UInt32.toBitVec_inj.mp BitVec.and_or_distrib_right

theorem and_or_distrib_left₃₂ (x y z : UInt32) : x &&& (y ||| z) = x &&& y ||| x &&& z :=
  UInt32.toBitVec_inj.mp BitVec.and_or_distrib_left

/-- A bit that was added is there. -/
theorem or_and_self₃₂ (x y : UInt32) : (x ||| y) &&& y = y := by
  apply UInt32.toBitVec_inj.mp
  apply BitVec.eq_of_getElem_eq
  intro i hi
  simp only [UInt32.toBitVec_and, UInt32.toBitVec_or, BitVec.getElem_and, BitVec.getElem_or]
  cases x.toBitVec[i] <;> cases y.toBitVec[i] <;> rfl

theorem or_and_self₁₆ (x y : UInt16) : (x ||| y) &&& y = y := by
  apply UInt16.toBitVec_inj.mp
  apply BitVec.eq_of_getElem_eq
  intro i hi
  simp only [UInt16.toBitVec_and, UInt16.toBitVec_or, BitVec.getElem_and, BitVec.getElem_or]
  cases x.toBitVec[i] <;> cases y.toBitVec[i] <;> rfl

/-- Adding a bit that is there. -/
theorem or_twoPow_of_and_ne_zero {w k : Nat} {x : BitVec w} (h : x &&& BitVec.twoPow w k ≠ 0) :
    x ||| BitVec.twoPow w k = x := by
  rw [BitVec.and_twoPow] at h
  have hbit : x.getLsbD k = true := by
    cases hclear : x.getLsbD k with
    | false =>
        rw [hclear] at h
        exact absurd rfl h
    | true => rfl
  apply BitVec.eq_of_getElem_eq
  intro i hi
  rw [BitVec.getElem_or, BitVec.getElem_twoPow]
  by_cases hik : i = k
  · subst hik
    rw [BitVec.getLsbD_eq_getElem hi] at hbit
    simp [hbit]
  · simp [hik]

theorem or_of_and_ne_zero₃₂ {x y : UInt32} {k : Nat} (hy : y.toBitVec = BitVec.twoPow 32 k)
    (h : x &&& y ≠ 0) : x ||| y = x := by
  apply UInt32.toBitVec_inj.mp
  rw [UInt32.toBitVec_or, hy]
  apply or_twoPow_of_and_ne_zero
  rw [← hy, ← UInt32.toBitVec_and]
  exact fun hzero => h (UInt32.toBitVec_inj.mp hzero)

theorem or_of_and_ne_zero₁₆ {x y : UInt16} {k : Nat} (hy : y.toBitVec = BitVec.twoPow 16 k)
    (h : x &&& y ≠ 0) : x ||| y = x := by
  apply UInt16.toBitVec_inj.mp
  rw [UInt16.toBitVec_or, hy]
  apply or_twoPow_of_and_ne_zero
  rw [← hy, ← UInt16.toBitVec_and]
  exact fun hzero => h (UInt16.toBitVec_inj.mp hzero)

/-- Taking away bits that are not there. -/
theorem and_not_of_and_eq_zero₃₂ {x y : UInt32} (h : x &&& y = 0) : x &&& ~~~y = x := by
  calc
    x &&& ~~~y = x &&& y ||| x &&& ~~~y := by rw [h, UInt32.zero_or]
    _ = x &&& (y ||| ~~~y) := (and_or_distrib_left₃₂ x y (~~~y)).symm
    _ = x := by rw [UInt32.or_not_self, UInt32.and_neg_one]

theorem and_not_of_and_eq_zero₈ {x y : UInt8} (h : x &&& y = 0) : x &&& ~~~y = x := by
  have hdistrib : x &&& (y ||| ~~~y) = x &&& y ||| x &&& ~~~y :=
    UInt8.toBitVec_inj.mp BitVec.and_or_distrib_left
  calc
    x &&& ~~~y = x &&& y ||| x &&& ~~~y := by rw [h, UInt8.zero_or]
    _ = x &&& (y ||| ~~~y) := hdistrib.symm
    _ = x := by rw [UInt8.or_not_self, UInt8.and_neg_one]

/-- Taking away the bits that were added. -/
theorem or_and_not₃₂ {x y : UInt32} (h : x &&& y = 0) : (x ||| y) &&& ~~~y = x := by
  rw [and_or_distrib_right₃₂, UInt32.and_not_self, UInt32.or_zero, and_not_of_and_eq_zero₃₂ h]

end IoUring.Foundation
