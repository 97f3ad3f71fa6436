import IoUring.Cqueue.Queue

/-!
# The iterator and the batched read

`next` compares head and tail while `fill` computes their distance, and both pop
from the head on. The two agree for every pair of counters, so that the iterator
ends after as many entries as `len` says, wherever the counters stand.
-/

namespace IoUring.Cqueue.CompletionQueue

open Foundation

variable {E : Type*}

/-- What `n` calls of `next` return, and the handle after them. -/
def nextEach (cq : CompletionQueue) (q : Inner E) : Nat → List (Option E) × CompletionQueue
  | 0 => ([], cq)
  | n + 1 =>
      match cq.next q with
      | none =>
          let (results, cq) := nextEach cq q n
          (none :: results, cq)
      | some (entry, cq) =>
          let (results, cq) := nextEach cq q n
          (some entry :: results, cq)

variable {cq cq' : CompletionQueue} {q : Inner E} {entry : E}

theorem head_eq_tail_iff : cq.head = cq.tail ↔ cq.len.toNat = 0 := by
  rw [len, UInt32.toNat_toUInt64, toNat_sub_eq_zero_iff]

theorem next_of_empty (h : cq.len.toNat = 0) : cq.next q = none :=
  next_eq_none_iff.mpr (head_eq_tail_iff.mpr h)

theorem next_of_ready (h : cq.len.toNat ≠ 0) : cq.next q = some (cq.pop q) := by
  rw [next, if_pos]
  exact mt head_eq_tail_iff.mp h

/-- `pop` takes one from the length, wherever the counters stand. -/
theorem len_pop (q : Inner E) (h : cq.len.toNat ≠ 0) :
    (cq.pop q).2.len.toNat = cq.len.toNat - 1 := by
  have hne : cq.head ≠ cq.tail := mt head_eq_tail_iff.mp h
  change (cq.tail - (cq.head + 1)).toUInt64.toNat = (cq.tail - cq.head).toUInt64.toNat - 1
  rw [UInt32.toNat_toUInt64, UInt32.toNat_toUInt64, toNat_sub_eq_succ hne, Nat.add_sub_cancel]

/-- An entry that `next` returns was counted. -/
theorem len_of_next (h : cq.next q = some (entry, cq')) : cq'.len.toNat < cq.len.toNat := by
  by_cases hzero : cq.len.toNat = 0
  · rw [next_of_empty hzero] at h
    cases h
  · rw [next_of_ready hzero] at h
    have hpop : (cq.pop q).2 = cq' := congrArg Prod.snd (Option.some.inj h)
    have hlen := len_pop q hzero
    rw [hpop] at hlen
    omega

/-- The `for` loop over the queue: `next` until it returns `None`. -/
def collect (cq : CompletionQueue) (q : Inner E) : List E :=
  match _h : cq.next q with
  | none => []
  | some (entry, cq') => entry :: collect cq' q
termination_by cq.len.toNat
decreasing_by exact len_of_next ‹_›

theorem isSome_next_iff : (cq.next q).isSome = true ↔ 0 < cq.len.toNat := by
  by_cases hzero : cq.len.toNat = 0
  · rw [next_of_empty hzero, hzero]
    exact iff_of_false Bool.false_ne_true (Nat.lt_irrefl 0)
  · rw [next_of_ready hzero]
    exact iff_of_true rfl (Nat.pos_of_ne_zero hzero)

/-- Each call takes one from the length until nothing is left. -/
theorem len_nextEach (cq : CompletionQueue) (q : Inner E) (m : Nat) :
    (cq.nextEach q m).2.len.toNat = cq.len.toNat - m := by
  induction m generalizing cq with
  | zero => rfl
  | succ m ih =>
      by_cases hzero : cq.len.toNat = 0
      · rw [nextEach, next_of_empty hzero]
        have hrest := ih cq
        change (cq.nextEach q m).2.len.toNat = _
        omega
      · rw [nextEach, next_of_ready hzero]
        have hrest := ih (cq.pop q).2
        rw [len_pop q hzero] at hrest
        change ((cq.pop q).2.nextEach q m).2.len.toNat = _
        omega

theorem length_nextEach (cq : CompletionQueue) (q : Inner E) (m : Nat) :
    (cq.nextEach q m).1.length = m := by
  induction m generalizing cq with
  | zero => rfl
  | succ m ih =>
      rw [nextEach]
      cases cq.next q with
      | none => exact congrArg (· + 1) (ih cq)
      | some pair => exact congrArg (· + 1) (ih pair.2)

theorem length_popEach (cq : CompletionQueue) (q : Inner E) (entries : List (Option E)) :
    (cq.popEach q entries).1.length = entries.length := by
  induction entries generalizing cq with
  | nil => rfl
  | cons slot rest ih => exact congrArg (· + 1) (ih _)

/-- The loop of `fill` is that many calls of `next`. -/
theorem nextEach_eq_popEach (cq : CompletionQueue) (q : Inner E) {entries : List (Option E)}
    (h : entries.length ≤ cq.len.toNat) :
    cq.nextEach q entries.length =
      ((cq.popEach q entries).1.map some, (cq.popEach q entries).2) := by
  induction entries generalizing cq with
  | nil => rfl
  | cons slot rest ih =>
      rw [List.length_cons] at h ⊢
      have hready : cq.len.toNat ≠ 0 := by omega
      have hrest := ih (cq.pop q).2 (by
        rw [len_pop q hready]
        omega)
      rw [nextEach, next_of_ready hready]
      simp only [popEach, hrest, List.map_cons]

/-- The loop runs through the calls that `len` announces. -/
theorem map_collect (cq : CompletionQueue) (q : Inner E) :
    (cq.collect q).map some = (cq.nextEach q cq.len.toNat).1 := by
  generalize hlen : cq.len.toNat = n
  induction n generalizing cq with
  | zero =>
      rw [collect, next_of_empty hlen]
      rfl
  | succ n ih =>
      have hready : cq.len.toNat ≠ 0 := by omega
      have hrest := ih (cq.pop q).2 (by
        rw [len_pop q hready]
        omega)
      rw [collect, nextEach, next_of_ready hready]
      exact congrArg (some (cq.pop q).1 :: ·) hrest

/-- Whatever the counters and the slice, `fill` returns the shorter of the two lengths of
entries, all initialised, leaves the rest of the slice alone, and does what that many calls
of `next` do. After `m` calls the next one returns an entry exactly if the length was more
than `m`, the hint is what is left of it, and so the loop ends with that many entries. -/
theorem fill_agrees_with_next (cq : CompletionQueue) (q : Inner E) (entries : List (Option E)) :
    (∃ filled cq', cq.fill q entries =
          (filled, filled.map some ++ entries.drop filled.length, cq') ∧
        filled.length = min cq.len.toNat entries.length ∧
        cq.nextEach q filled.length = (filled.map some, cq')) ∧
      (∀ m, (((cq.nextEach q m).2.next q).isSome = true ↔ m < cq.len.toNat) ∧
        ∃ left, (cq.nextEach q m).2.sizeHint = (left, some left) ∧
          left.toNat = cq.len.toNat - m) ∧
      (cq.collect q).map some = (cq.nextEach q cq.len.toNat).1 ∧
      (cq.collect q).length = cq.len.toNat := by
  refine ⟨?_, ?_, cq.map_collect q, ?_⟩
  · have hslots : (entries.take (min cq.len.toNat entries.length)).length =
        min cq.len.toNat entries.length := by
      rw [List.length_take]
      omega
    have hlength := length_popEach cq q (entries.take (min cq.len.toNat entries.length))
    have hcalls := nextEach_eq_popEach cq q (hslots.trans_le (Nat.min_le_left ..))
    rw [hslots] at hlength hcalls
    generalize hpops : cq.popEach q (entries.take (min cq.len.toNat entries.length)) = pops
      at hlength hcalls
    refine ⟨pops.1, pops.2, ?_, hlength, ?_⟩
    · rw [hlength, ← hpops]
      rfl
    · rw [hlength]
      exact hcalls
  · intro m
    have hlen := len_nextEach cq q m
    constructor
    · rw [isSome_next_iff, hlen]
      omega
    · exact ⟨_, rfl, hlen⟩
  · rw [← List.length_map some, map_collect, length_nextEach]

end IoUring.Cqueue.CompletionQueue
