import IoUring.Foundation.WrappingCounter
import IoUring.Foundation.RingWindow

/-!
# Ring sizes

Both rings have a power of two of entries, at most `2^31`, so that the size
divides the turn of the 32-bit counters, and a mask one below the size. The
kernel fills both words in; a value of `RingSize` carries the proof that they
fit together.
-/

namespace IoUring

structure RingSize where
  ringEntries : UInt32
  ringMask : UInt32
  log2 : Nat
  log2_le : log2 ≤ 31
  ringEntries_eq : ringEntries.toNat = 2 ^ log2
  ringMask_eq : ringMask.toNat + 1 = 2 ^ log2

namespace RingSize

variable (r : RingSize)

/-- The number of slots. -/
def slots : Nat := r.ringEntries.toNat

/-- `(counter & self.queue.ring_mask) as usize`: the slot a counter designates. -/
def slotOf (counter : UInt32) : Nat := (counter &&& r.ringMask).toNat

theorem slots_pos : 0 < r.slots := by
  rw [slots, r.ringEntries_eq]
  exact Nat.two_pow_pos _

theorem slots_le : r.slots ≤ 2 ^ 31 := by
  rw [slots, r.ringEntries_eq]
  exact Nat.pow_le_pow_right (by omega) r.log2_le

/-- A counter at position `n` designates slot `n` modulo the size, also after it wrapped. -/
theorem slotOf_ofNat (n : Nat) : r.slotOf (UInt32.ofNat n) = n % r.slots := by
  rw [slotOf, slots, r.ringEntries_eq]
  exact Foundation.toNat_ofNat_and (by have := r.log2_le; omega) r.ringMask_eq

/-- Every counter designates one of the slots. -/
theorem slotOf_lt (counter : UInt32) : r.slotOf counter < r.slots := by
  have h := r.slotOf_ofNat counter.toNat
  rw [UInt32.ofNat_toNat] at h
  rw [h]
  exact Nat.mod_lt _ r.slots_pos

/-- The slots of the `n` counters that follow `c`, first to last. -/
def slotsFrom (c : UInt32) (n : Nat) : List Nat :=
  (List.range n).map fun i => r.slotOf (c + UInt32.ofNat i)

@[simp] theorem length_slotsFrom (c : UInt32) (n : Nat) : (r.slotsFrom c n).length = n := by
  simp [slotsFrom]

theorem mem_slotsFrom {base n k : Nat} :
    k ∈ r.slotsFrom (UInt32.ofNat base) n ↔ ∃ i < n, (base + i) % r.slots = k := by
  simp [slotsFrom, ← UInt32.ofNat_add, slotOf_ofNat]

theorem slotsFrom_succ (c : UInt32) (n : Nat) :
    r.slotsFrom c (n + 1) = r.slotOf c :: r.slotsFrom (c + 1) n := by
  simp [slotsFrom, List.range_succ_eq_map, Function.comp_def, UInt32.add_assoc, UInt32.add_comm 1]

/-- What is read from a stretch of the ring is held there. -/
theorem holds_slotsFrom {α : Type*} (slots : Nat → α) (c : UInt32) (n : Nat) :
    Foundation.Holds r.slots c.toNat slots ((r.slotsFrom c n).map slots) 0 := by
  intro i hi _
  simp only [slotsFrom, List.map_map, List.getElem_map, List.getElem_range, Function.comp_apply]
  rw [← r.slotOf_ofNat, UInt32.ofNat_add, UInt32.ofNat_toNat]

/-- A stretch of the window, read slot by slot, is that stretch of the log. -/
theorem map_slotsFrom {α : Type*} {slots : Nat → α} {log : List α} {base lo i n : Nat}
    (h : Foundation.Holds r.slots base slots log lo) (hlo : lo ≤ i) (hn : i + n ≤ log.length) :
    (r.slotsFrom (UInt32.ofNat (base + i)) n).map slots = (log.drop i).take n := by
  apply List.ext_getElem
  · simp only [List.length_map, length_slotsFrom, List.length_take, List.length_drop]
    omega
  · intro j hj hj'
    simp only [List.length_take, List.length_drop] at hj'
    simp only [slotsFrom, List.map_map, List.getElem_map, List.getElem_range,
      Function.comp_apply, List.getElem_take, List.getElem_drop]
    rw [← UInt32.ofNat_add, r.slotOf_ofNat, Nat.add_assoc, h _ (by omega) (by omega)]

/-- Counters of two disjoint stretches within one turn of the ring use different slots. -/
theorem slotsFrom_disjoint {base m n : Nat} (h : m + n ≤ r.slots) :
    List.Disjoint (r.slotsFrom (UInt32.ofNat base) m)
      (r.slotsFrom (UInt32.ofNat (base + m)) n) := by
  intro k hk hk'
  obtain ⟨i, hi, rfl⟩ := r.mem_slotsFrom.mp hk
  obtain ⟨j, hj, heq⟩ := r.mem_slotsFrom.mp hk'
  rw [Nat.add_assoc] at heq
  exact Foundation.slot_ne (show i < m + j by omega) (by omega) heq.symm

/-- The counters of one turn of the ring use each slot once. -/
theorem slotsFrom_nodup {base n : Nat} (h : n ≤ r.slots) :
    (r.slotsFrom (UInt32.ofNat base) n).Nodup := by
  induction n generalizing base with
  | zero => exact List.nodup_nil
  | succ n ih =>
      have hnext : UInt32.ofNat base + 1 = UInt32.ofNat (base + 1) := (UInt32.ofNat_add ..).symm
      rw [slotsFrom_succ, hnext, List.nodup_cons]
      refine ⟨?_, ih (by omega)⟩
      rw [mem_slotsFrom, slotOf_ofNat]
      rintro ⟨i, hi, heq⟩
      rw [Nat.add_assoc, Nat.add_comm 1] at heq
      exact Foundation.slot_ne (Nat.succ_pos i) (by omega) heq.symm

/-- The ring of two slots. -/
def two : RingSize where
  ringEntries := 2
  ringMask := 1
  log2 := 1
  log2_le := by decide
  ringEntries_eq := by decide
  ringMask_eq := by decide

end RingSize

end IoUring
