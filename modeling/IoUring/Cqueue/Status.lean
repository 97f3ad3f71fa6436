import IoUring.Cqueue.Delivery
import IoUring.Cqueue.Iterator

/-!
# The completion status

`CompletionStatus` compares the published head with the kernel's tail and
borrows nothing, so it may be asked while a handle has returned entries that it
has not given back. The published head is at most as far as the handle's, so
that equal counters leave nothing unread.
-/

namespace IoUring.Cqueue

open Foundation

variable {E : Type*}

namespace CompletionStatus

/-- `is_empty`: the head is loaded and then the tail, each from the ring as it is by then. -/
def isEmpty (first second : Inner E) : Bool := first.head == second.tail

end CompletionStatus

/-- The number of entries that the handle popped since it was borrowed or last synced. -/
def poppedAfter (popped : Nat) : Event E → Nat
  | .returned entries => popped + entries.length
  | .borrowed | .published | .dropped => 0
  | .loaded | .posted _ => popped

def poppedSince (events : List (Event E)) : Nat := ledgerAfter poppedAfter 0 events

/-- A handle borrowed, or the live one synced, at this instant. -/
def refreshed (q : Inner E) : App → CompletionQueue
  | .none => q.borrowShared
  | .ready cq => (cq.sync q).1
  | .syncing cq => cq.loadTail q

namespace Ledger

/-- Nothing that was posted is taken back. -/
theorem posted_prefix (l : Ledger E) (event : Event E) : l.posted <+: (l.record event).posted := by
  cases event with
  | posted entry => exact List.prefix_append _ _
  | borrowed | returned | published | loaded | dropped => exact List.prefix_rfl

theorem freed_eq (l : Ledger E) (f : Nat) {event : Event E}
    (h : event ≠ .published ∧ event ≠ .dropped) : l.freed f event = f := by
  cases event with
  | published => exact absurd rfl h.1
  | dropped => exact absurd rfl h.2
  | borrowed | returned | loaded | posted => rfl

end Ledger

namespace Inv

variable {base f t : Nat} {l : Ledger E} {q : Inner E} {app : App}

/-- What has been returned and not given back is what was popped since the last release store. -/
theorem run_popped (hroom : (q.tail - q.head).toNat ≤ q.slots) {events : List (Event E)}
    {s : State E} (run : Run Step ⟨q, .none⟩ events s) :
    ∃ f t, Inv q.head.toNat (Ledger.of q events) f t s.q s.app ∧
      (Ledger.of q events).returned.length = f + poppedSince events := by
  induction run with
  | start => exact ⟨0, 0, start q hroom, rfl⟩
  | @next events s event s' _ hstep ih =>
      obtain ⟨f, t, hinv, hpopped⟩ := ih
      obtain ⟨t', hinv'⟩ := hinv.step_freed hstep
      simp only [Ledger.of, poppedSince, ledgerAfter_snoc] at hinv' hpopped ⊢
      refine ⟨_, t', hinv', ?_⟩
      cases event with
      | borrowed =>
          cases hstep
          exact hinv.app
      | returned entries =>
          simp only [Ledger.record, Ledger.freed, poppedAfter, List.length_append, hpopped,
            Nat.add_assoc]
      | published | dropped => rfl
      | loaded | posted => exact hpopped

/-- Along a stretch of a run the posted entries only grow, and the published head stays where it
is as long as no handle stores it. -/
theorem onward (h : Inv base l f t q app) {events : List (Event E)} {s : State E}
    (run : Run Step ⟨q, app⟩ events s) :
    ∃ f' t', Inv base (ledgerAfter Ledger.record l events) f' t' s.q s.app ∧
      l.posted <+: (ledgerAfter Ledger.record l events).posted ∧
      ((∀ event ∈ events, event ≠ .published ∧ event ≠ .dropped) → f' = f) := by
  induction run with
  | start => exact ⟨f, t, h, List.prefix_rfl, fun _ => rfl⟩
  | @next events s event s' _ hstep ih =>
      obtain ⟨f₁, t₁, hinv, hposted, hfreed⟩ := ih
      obtain ⟨t', hinv'⟩ := hinv.step_freed hstep
      rw [ledgerAfter_snoc]
      refine ⟨_, t', hinv', ?_, ?_⟩
      · exact hposted.trans (Ledger.posted_prefix _ _)
      · intro hstores
        rw [List.forall_mem_append, List.forall_mem_singleton] at hstores
        exact (Ledger.freed_eq _ _ hstores.2).trans (hfreed hstores.1)

/-- The shared counters are equal when the kernel's tail is where the published head is. -/
theorem isEmpty_iff (h : Inv base l f t q app) {l' : Ledger E} {f' t' : Nat} {q' : Inner E}
    {app' : App} (h' : Inv base l' f' t' q' app') (hle : f ≤ l'.posted.length)
    (hlt : l'.posted.length < f + 2 ^ 32) :
    CompletionStatus.isEmpty q q' = true ↔ l'.posted.length = f := by
  rw [CompletionStatus.isEmpty, beq_iff_eq, h.head_eq, h'.tail_eq, eq_comm,
    ofNat_eq_ofNat_iff (by omega) (by omega), Nat.add_right_inj]

/-- A handle that is borrowed or synced now has its head where the returned entries end and its
tail where the kernel's is. -/
theorem refreshed_eq (h : Inv base l f t q app) :
    (refreshed q app).head = .ofNat (base + l.returned.length) ∧
      (refreshed q app).tail = q.tail := by
  cases app with
  | none =>
      have hreturned : l.returned.length = f := h.app
      rw [hreturned]
      exact ⟨h.head_eq, rfl⟩
  | ready cq | syncing cq => exact ⟨h.app.1, rfl⟩

end Inv

/-- A handle is empty when its counters are equal. -/
theorem CompletionQueue.isEmpty_iff (cq : CompletionQueue) :
    cq.isEmpty = true ↔ cq.head = cq.tail := by
  rw [head_eq_tail_iff, isEmpty, beq_iff_eq, ← UInt64.toNat_inj]
  rfl

/-- The status compares counters that the kernel may move between its two loads. If it says that
the ring is empty, then everything posted up to the load of the tail had been returned when the
head was loaded, unless the head was stored in between and the kernel then posted almost a
turn of the counters. While no returned entry is left to be given back, it says so exactly if
all that was posted has been returned, as does a handle that is borrowed or synced then. -/
theorem status_hides_nothing {q : Inner E} (hroom : (q.tail - q.head).toNat ≤ q.slots)
    {before during : List (Event E)} {s s' : State E} (past : Run Step ⟨q, .none⟩ before s)
    (gap : Run Step s during s')
    (hgap : (∀ event ∈ during, event ≠ .published ∧ event ≠ .dropped) ∨
      (Ledger.of q (before ++ during)).posted.length <
        (Ledger.of q before).posted.length + (2 ^ 32 - s.q.slots)) :
    (CompletionStatus.isEmpty s.q s'.q = true →
        (Ledger.of q before).returned = (Ledger.of q (before ++ during)).posted) ∧
      (s.app = .none ∨ poppedSince before = 0 →
        (CompletionStatus.isEmpty s.q s.q = true ↔
            (Ledger.of q before).posted.length = (Ledger.of q before).returned.length) ∧
          CompletionStatus.isEmpty s.q s.q = (refreshed s.q s.app).isEmpty) := by
  obtain ⟨f, t, h, hpopped⟩ := Inv.run_popped hroom past
  have hfreed := h.freed_le
  have hposted := h.returned_prefix.length_le
  have hroom' := h.room
  have hslots := s.q.slots_le
  constructor
  · intro hempty
    obtain ⟨f', t', h', hgrows, hstays⟩ := h.onward gap
    have hledger : Ledger.of q (before ++ during) =
        ledgerAfter Ledger.record (Ledger.of q before) during := ledgerAfter_append ..
    rw [hledger] at hgap ⊢
    have hlt : (ledgerAfter Ledger.record (Ledger.of q before) during).posted.length <
        f + 2 ^ 32 := by
      rcases hgap with hstores | hbound
      · have hroom' := h'.room
        have hslots' := s'.q.slots_le
        rw [hstays hstores] at hroom'
        omega
      · omega
    have hlen := hgrows.length_le
    have heq := (h.isEmpty_iff h' (by omega) hlt).mp hempty
    exact (h.returned_prefix.trans hgrows).eq_of_length (by omega)
  · intro hgiven
    have heq : f = (Ledger.of q before).returned.length := by
      rcases hgiven with hnone | hzero
      · have happ := h.app
        rw [hnone] at happ
        exact happ.symm
      · omega
    constructor
    · rw [h.isEmpty_iff h (by omega) (by omega), heq]
    · obtain ⟨hhead, htail⟩ := h.refreshed_eq
      rw [Bool.eq_iff_iff, CompletionQueue.isEmpty_iff, hhead, htail, CompletionStatus.isEmpty,
        beq_iff_eq, h.head_eq, heq]

/-- The unread completion is returned across the wrap, and the status sees it only once the
handle is dropped. -/
theorem status_hides_nothing_wrapping :
    ∃ events s, Run Step ⟨wrappingRing, .none⟩ events s ∧
      CompletionStatus.isEmpty s.q s.q = true ∧
      (Ledger.of wrappingRing events).returned = (Ledger.of wrappingRing (events ++ [])).posted ∧
      CompletionStatus.isEmpty s.q s.q = (refreshed s.q s.app).isEmpty := by
  have hroom : (wrappingRing.tail - wrappingRing.head).toNat ≤ wrappingRing.slots := by
    decide +kernel
  have first : Step ⟨wrappingRing, .ready wrappingRing.borrow⟩ (.returned [6]) _ :=
    .next (if_pos (by decide +kernel))
  have run := ((Run.start.next Step.borrow).next first).next .drop
  obtain ⟨hempty, hagree⟩ := status_hides_nothing hroom run .start (.inl nofun)
  exact ⟨_, _, run, by decide +kernel, hempty (by decide +kernel), (hagree (.inl rfl)).2⟩

end IoUring.Cqueue
