import IoUring.Foundation.Usize
import IoUring.Squeue.Fifo

/-!
# A batch is pushed as a whole or not at all

`push` and `push_multiple` as methods on the handle and the ring, which keep what
they are in when a method fails. A loop of `push` that fails has pushed the entries
that fitted; `push_multiple` computes the room first.
-/

namespace IoUring.Squeue

variable {E : Type}

/-- A method that may fail, on the handle and the ring. -/
abbrev QueueM (E : Type) := EStateM PushError (SubmissionQueue × Inner E)

theorem SubmissionQueue.pushMultiple_of_room {sq : SubmissionQueue} {q : Inner E}
    {entries : List E} (h : sq.len.toNat + entries.length ≤ q.slots) :
    sq.pushMultiple q entries = .ok (sq.pushAll q entries) := by
  have hcap := toNat_capacity q
  have hle : sq.len ≤ capacity q := UInt64.le_iff_toNat_le.mpr (by omega)
  have hfits : ¬ (capacity q - sq.len).toNat < entries.length := by
    rw [UInt64.toNat_sub_of_le _ _ hle]
    omega
  rw [pushMultiple, if_neg hfits]

namespace QueueM

open SubmissionQueue (capacity)

def pushUnchecked (entry : E) : QueueM E PUnit :=
  modify fun (sq, q) => sq.pushUnchecked q entry

def push (entry : E) : QueueM E PUnit := do
  let (sq, q) ← get
  if !sq.isFull q then pushUnchecked entry else throw .pushError

def pushMultiple (entries : List E) : QueueM E PUnit := do
  let (sq, q) ← get
  if (capacity q - sq.len).toNat < entries.length then throw .pushError
  else entries.forM pushUnchecked

/-- `push`, entry by entry. -/
def pushEach (entries : List E) : QueueM E PUnit := entries.forM push

variable {sq : SubmissionQueue} {q : Inner E} {entry : E} {entries : List E}

/-- The method is the function on handle and ring, which an error leaves as they were. -/
theorem push_eq (sq : SubmissionQueue) (q : Inner E) (entry : E) :
    push entry (sq, q) =
      match sq.push q entry with
      | .ok st => .ok ⟨⟩ st
      | .error err => .error err (sq, q) := by
  change (if !sq.isFull q then pushUnchecked entry else throw .pushError : QueueM E PUnit)
    (sq, q) = _
  rw [SubmissionQueue.push]
  split <;> rfl

theorem push_of_len_lt (h : sq.len.toNat < q.slots) :
    push entry (sq, q) = .ok ⟨⟩ (sq.pushUnchecked q entry) := by
  have hfree : sq.isFull q = false := by
    rw [← Bool.not_eq_true, SubmissionQueue.isFull_iff_len]
    omega
  have hpush : sq.push q entry = .ok (sq.pushUnchecked q entry) := by
    rw [SubmissionQueue.push, hfree]
    rfl
  rw [push_eq, hpush]

/-- One more entry is one more in the length, which is below a turn of the counters. -/
theorem len_pushUnchecked (h : sq.len.toNat < q.slots) :
    (sq.pushUnchecked q entry).1.len.toNat = sq.len.toNat + 1 := by
  have hslots := q.slots_le
  have hlen : (sq.tail - sq.head).toNat < q.slots := by
    rwa [SubmissionQueue.len, UInt32.toNat_toUInt64] at h
  have hnext : sq.tail + 1 - sq.head = (sq.tail - sq.head) + 1 := by grind
  change (sq.tail + 1 - sq.head).toUInt64.toNat = (sq.tail - sq.head).toUInt64.toNat + 1
  rw [UInt32.toNat_toUInt64, UInt32.toNat_toUInt64, hnext, UInt32.toNat_add, UInt32.toNat_one]
  omega

theorem forM_pushUnchecked (sq : SubmissionQueue) (q : Inner E) (entries : List E) :
    entries.forM pushUnchecked (sq, q) = .ok ⟨⟩ (sq.pushAll q entries) := by
  induction entries generalizing sq q with
  | nil => rfl
  | cons entry rest ih => exact ih _ _

/-- As `push_eq`, for a batch. -/
theorem pushMultiple_eq (sq : SubmissionQueue) (q : Inner E) (entries : List E) :
    pushMultiple entries (sq, q) =
      match sq.pushMultiple q entries with
      | .ok st => .ok ⟨⟩ st
      | .error err => .error err (sq, q) := by
  change (if (capacity q - sq.len).toNat < entries.length then throw .pushError
    else entries.forM pushUnchecked : QueueM E PUnit) (sq, q) = _
  rw [SubmissionQueue.pushMultiple]
  split
  · rfl
  · exact forM_pushUnchecked sq q entries

theorem pushEach_of_room (h : sq.len.toNat + entries.length ≤ q.slots) :
    pushEach entries (sq, q) = .ok ⟨⟩ (sq.pushAll q entries) := by
  induction entries generalizing sq q with
  | nil => rfl
  | cons entry rest ih =>
      rw [List.length_cons] at h
      have hlen : sq.len.toNat < q.slots := by omega
      have hnext : (sq.pushUnchecked q entry).1.len.toNat = sq.len.toNat + 1 :=
        len_pushUnchecked hlen
      have hroom : (sq.pushUnchecked q entry).1.len.toNat + rest.length ≤
          (sq.pushUnchecked q entry).2.slots := by
        change _ ≤ q.slots
        omega
      change EStateM.bind (push entry) (fun _ => pushEach rest) (sq, q) = _
      rw [EStateM.bind, push_of_len_lt hlen]
      exact ih hroom

/-- A batch that fits is pushed, whatever it is cut from. -/
theorem pushMultiple_of_room (h : sq.len.toNat + entries.length ≤ q.slots) :
    pushMultiple entries (sq, q) = .ok ⟨⟩ (sq.pushAll q entries) := by
  rw [pushMultiple_eq, SubmissionQueue.pushMultiple_of_room h]

theorem pushMultiple_of_excess (hroom : sq.len ≤ capacity q)
    (h : q.slots < sq.len.toNat + entries.length) :
    pushMultiple entries (sq, q) = .error .pushError (sq, q) := by
  have hcap := SubmissionQueue.toNat_capacity q
  have hle := UInt64.le_iff_toNat_le.mp hroom
  have hexcess : (capacity q - sq.len).toNat < entries.length := by
    rw [UInt64.toNat_sub_of_le _ _ hroom]
    omega
  rw [pushMultiple_eq, SubmissionQueue.pushMultiple, if_pos hexcess]

theorem pushAll_append (sq : SubmissionQueue) (q : Inner E) (a b : List E) :
    sq.pushAll q (a ++ b) = (sq.pushAll q a).1.pushAll (sq.pushAll q a).2 b := by
  induction a generalizing sq q with
  | nil => rfl
  | cons entry rest ih => exact ih _ _

/-- The loop adds its entries to the length, and leaves the capacity. -/
theorem len_pushAll (h : sq.len.toNat + entries.length ≤ q.slots) :
    (sq.pushAll q entries).1.len.toNat = sq.len.toNat + entries.length := by
  induction entries generalizing sq q with
  | nil => rfl
  | cons entry rest ih =>
      rw [List.length_cons] at h ⊢
      have hnext : (sq.pushUnchecked q entry).1.len.toNat = sq.len.toNat + 1 :=
        len_pushUnchecked (by omega)
      have hrest := @ih (sq.pushUnchecked q entry).1 (sq.pushUnchecked q entry).2 (by
        change _ ≤ q.slots
        omega)
      change ((sq.pushUnchecked q entry).1.pushAll (sq.pushUnchecked q entry).2
        rest).1.len.toNat = _
      omega

theorem slots_pushAll (sq : SubmissionQueue) (q : Inner E) (entries : List E) :
    (sq.pushAll q entries).2.slots = q.slots := by
  rw [sq.pushAll_writes q entries]

/-- What a batch leaves: the entries stand from the local tail on, in their order, the tail is
past them, and the cached head, the other slots and the shared words are as they were. -/
structure Written (sq : SubmissionQueue) (q : Inner E) (entries : List E)
    (st : SubmissionQueue × Inner E) : Prop where
  slots : (q.slotsFrom sq.tail entries.length).map st.2.sqes = entries
  others : ∀ k ∉ q.slotsFrom sq.tail entries.length, st.2.sqes k = q.sqes k
  shared : st.2 = { q with sqes := st.2.sqes }
  tail : st.1.tail = sq.tail + UInt32.ofNat entries.length
  head : st.1.head = sq.head

/-- The entries of a batch no longer than the ring do not overwrite each other. -/
theorem map_pushAll (sq : SubmissionQueue) (q : Inner E) (h : entries.length ≤ q.slots) :
    (q.slotsFrom sq.tail entries.length).map (sq.pushAll q entries).2.sqes = entries := by
  induction entries generalizing sq q with
  | nil => rfl
  | cons entry rest ih =>
      have hnodup : (q.slotsFrom (.ofNat sq.tail.toNat) (rest.length + 1)).Nodup :=
        q.slotsFrom_nodup h
      rw [UInt32.ofNat_toNat, RingSize.slotsFrom_succ] at hnodup
      have hrest := ih (sq.pushUnchecked q entry).1 (sq.pushUnchecked q entry).2
        (Nat.le_of_succ_le h)
      have hfirst := (sq.pushUnchecked q entry).1.pushAll_frame (sq.pushUnchecked q entry).2 rest
        (List.nodup_cons.mp hnodup).1
      rw [List.length_cons, RingSize.slotsFrom_succ, List.map_cons]
      exact congrArg₂ List.cons (hfirst.trans (Function.update_self ..)) hrest

theorem counters_pushAll (sq : SubmissionQueue) (q : Inner E) (entries : List E) :
    (sq.pushAll q entries).1 = { sq with tail := sq.tail + UInt32.ofNat entries.length } := by
  induction entries generalizing sq q with
  | nil => exact congrArg (SubmissionQueue.mk sq.head) (UInt32.add_zero _).symm
  | cons entry rest ih =>
      refine (ih (sq.pushUnchecked q entry).1 (sq.pushUnchecked q entry).2).trans ?_
      simp only [SubmissionQueue.pushUnchecked, List.length_cons, UInt32.ofNat_add,
        UInt32.add_assoc, UInt32.add_comm (UInt32.ofNat rest.length)]
      rfl

theorem pushAll_written (sq : SubmissionQueue) (q : Inner E) (h : entries.length ≤ q.slots) :
    Written sq q entries (sq.pushAll q entries) where
  slots := map_pushAll sq q h
  others _ hk := sq.pushAll_frame q entries hk
  shared := sq.pushAll_writes q entries
  tail := by rw [counters_pushAll]
  head := by rw [counters_pushAll]

/-- While the length is within the capacity, the room is computed without a wrap; a batch
succeeds exactly if it fits, and then writes its entries as pushing them one by one does; one
that fails leaves handle and ring as they were; and a batch that fits may be cut in two. -/
theorem push_multiple_atomic (hroom : sq.len ≤ capacity q) (entries : List E) :
    (∃ room, Foundation.checkedSub (capacity q) sq.len = some room ∧
        ((∃ st, pushMultiple entries (sq, q) = .ok ⟨⟩ st) ↔
          sq.len.toNat + entries.length ≤ (capacity q).toNat)) ∧
      (∀ st, pushMultiple entries (sq, q) = .ok ⟨⟩ st →
        pushEach entries (sq, q) = .ok ⟨⟩ st ∧ sq.pushMultiple q entries = .ok st ∧
          Written sq q entries st) ∧
      (∀ err st, pushMultiple entries (sq, q) = .error err st → st = (sq, q)) ∧
      ∀ a b, entries = a ++ b → sq.len.toNat + entries.length ≤ (capacity q).toNat →
        pushMultiple entries (sq, q) = (do pushMultiple a; pushMultiple b) (sq, q) := by
  obtain ⟨room, hsub, -⟩ := Foundation.checkedSub_of_le (UInt64.le_iff_toNat_le.mp hroom)
  rw [SubmissionQueue.toNat_capacity]
  by_cases hfits : sq.len.toNat + entries.length ≤ q.slots
  · have hbatch := pushMultiple_of_room hfits
    refine ⟨⟨room, hsub, iff_of_true ⟨_, hbatch⟩ hfits⟩, ?_, ?_, ?_⟩
    · intro st hst
      rw [hbatch] at hst
      obtain rfl := (EStateM.Result.ok.inj hst).2
      have hlength : entries.length ≤ q.slots := by omega
      exact ⟨pushEach_of_room hfits, SubmissionQueue.pushMultiple_of_room hfits,
        pushAll_written sq q hlength⟩
    · intro err st hst
      rw [hbatch] at hst
      cases hst
    · rintro a b rfl -
      rw [List.length_append] at hfits
      have hfirst : sq.len.toNat + a.length ≤ q.slots := by omega
      have hsecond : (sq.pushAll q a).1.len.toNat + b.length ≤ (sq.pushAll q a).2.slots := by
        rw [len_pushAll hfirst, slots_pushAll]
        omega
      change _ = EStateM.bind (pushMultiple a) (fun _ => pushMultiple b) (sq, q)
      rw [hbatch, pushAll_append, EStateM.bind, pushMultiple_of_room hfirst]
      exact (pushMultiple_of_room hsecond).symm
  · have hbatch := pushMultiple_of_excess hroom (Nat.lt_of_not_le hfits)
    refine ⟨⟨room, hsub, iff_of_false ?_ hfits⟩, ?_, ?_, ?_⟩
    · rintro ⟨st, hst⟩
      rw [hbatch] at hst
      cases hst
    · intro st hst
      rw [hbatch] at hst
      cases hst
    · intro err st hst
      rw [hbatch] at hst
      cases hst
      rfl
    · intro a b _ h
      exact absurd h hfits

/-- Across the wrap of the counters a batch of two fills the ring as two pushes do: slot 1
before slot 0. -/
theorem push_multiple_atomic_wrapping :
    ∃ st, pushMultiple [7, 8] (wrappingRing.borrow, wrappingRing) = .ok ⟨⟩ st ∧
      pushEach [7, 8] (wrappingRing.borrow, wrappingRing) = .ok ⟨⟩ st ∧
      [1, 0].map st.2.sqes = [7, 8] ∧ st.1.tail = 1 ∧ st.1.head = 4294967295 ∧
      st.2.tail = 4294967295 := by
  have hroom : wrappingRing.borrow.len ≤ capacity wrappingRing := by decide +kernel
  obtain ⟨⟨room, -, hok⟩, heach, -⟩ := push_multiple_atomic hroom [7, 8]
  obtain ⟨st, hst⟩ := hok.mpr (by decide +kernel)
  obtain ⟨heach, -, written⟩ := heach st hst
  exact ⟨st, hst, heach, written.slots, written.tail, written.head,
    congrArg Inner.tail written.shared⟩

end QueueM

end IoUring.Squeue
