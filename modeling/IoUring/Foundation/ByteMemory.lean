import Mathlib.Algebra.Group.Nat.Defs
import Mathlib.Data.List.Basic

/-!
# Memory by the byte

Addresses are 64-bit words and wrap; an area is an address and a number of
bytes. What is written to an area is read from it, and areas that share no
byte do not see each other's writes.
-/

namespace IoUring.Foundation

/-- What every address holds. -/
def Memory := UInt64 → UInt8

namespace Memory

def read (m : Memory) (addr : UInt64) (n : Nat) : List UInt8 :=
  (List.range n).map fun i => m (addr + .ofNat i)

def write (m : Memory) (addr : UInt64) (bytes : List UInt8) : Memory :=
  fun x => (bytes[(x - addr).toNat]?).getD (m x)

/-- The areas share no byte. -/
def Apart (a : UInt64) (n : Nat) (b : UInt64) (k : Nat) : Prop :=
  ∀ i < n, ∀ j < k, a + UInt64.ofNat i ≠ b + UInt64.ofNat j

variable {m : Memory} {a b addr : UInt64} {n k : Nat} {bytes : List UInt8}

theorem Apart.symm (h : Apart a n b k) : Apart b k a n :=
  fun j hj i hi heq => h i hi j hj heq.symm

@[simp] theorem length_read : (m.read addr n).length = n := by
  simp [read]

/-- The front of an area. -/
theorem take_read (h : k ≤ n) : (m.read addr n).take k = m.read addr k := by
  rw [read, ← List.map_take, List.take_range, Nat.min_eq_left h, read]

/-- The end of an area is an area. -/
theorem drop_read : (m.read addr n).drop k = m.read (addr + .ofNat k) (n - k) := by
  apply List.ext_getElem
  · simp
  · intro i hi hi'
    simp only [read, List.getElem_drop, List.getElem_map, List.getElem_range,
      UInt64.ofNat_add, ← UInt64.add_assoc]

theorem toNat_offset {i : Nat} (hi : i < 2 ^ 64) : (addr + UInt64.ofNat i - addr).toNat = i := by
  have hback : addr + UInt64.ofNat i - addr = UInt64.ofNat i := by
    rw [UInt64.add_comm, UInt64.add_sub_cancel]
  rw [hback]
  exact UInt64.toNat_ofNat_of_lt hi

theorem read_write (h : bytes.length ≤ 2 ^ 64) :
    (m.write addr bytes).read addr bytes.length = bytes := by
  apply List.ext_getElem
  · simp
  · intro i hi hi'
    simp only [read, write, List.getElem_map, List.getElem_range]
    rw [toNat_offset (Nat.lt_of_lt_of_le hi' h), List.getElem?_eq_getElem hi', Option.getD_some]

/-- An address that no written byte goes to keeps its byte. -/
theorem write_of_ne {x : UInt64} (h : ∀ i < bytes.length, addr + UInt64.ofNat i ≠ x) :
    m.write addr bytes x = m x := by
  have hbeyond : bytes.length ≤ (x - addr).toNat := by
    apply Nat.le_of_not_lt
    intro hlt
    apply h _ hlt
    rw [UInt64.ofNat_toNat, UInt64.add_comm, UInt64.sub_add_cancel]
  rw [write, List.getElem?_eq_none hbeyond, Option.getD_none]

/-- A write to an area leaves an area apart from it as it is. -/
theorem read_write_apart (h : Apart addr n a k) (hbytes : bytes.length ≤ n) {i : Nat}
    (hi : i ≤ k) : (m.write addr bytes).read a i = m.read a i := by
  apply List.map_congr_left
  intro j hj
  apply write_of_ne
  intro l hl
  exact h l (Nat.lt_of_lt_of_le hl hbytes) j (Nat.lt_of_lt_of_le (List.mem_range.mp hj) hi)

end Memory

end IoUring.Foundation
