import IoUring.Squeue.Fifo

/-!
# Printing the submission queue

The loop of `Debug` runs from the cached head until it meets the cached tail and
compares the two counters by equality. Each turn brings the counters one closer,
modulo the turn of 32 bits, so that it stops from wherever it starts; that it
stops within one turn of the ring is the invariant of the queue.
-/

namespace IoUring.Squeue

open Foundation

variable {E : Type*}

/-- The loop of `fmt`: the slots in the order in which they are read, each with its entry. -/
def debugLoop (q : Inner E) (tail pos : UInt32) : List (Nat × E) :=
  if pos ≠ tail then
    (q.slotOf pos, q.sqes (q.slotOf pos)) :: debugLoop q tail (pos + 1)
  else []
termination_by (tail - pos).toNat
decreasing_by
  rename_i hne
  rw [toNat_sub_eq_succ hne]
  exact Nat.lt_succ_self _

/-- `Debug for SubmissionQueue`: the list that is printed. -/
def SubmissionQueue.debug (sq : SubmissionQueue) (q : Inner E) : List (Nat × E) :=
  debugLoop q sq.tail sq.head

/-- The loop reads the slots of the counters from one end to the other. -/
theorem debugLoop_eq (q : Inner E) (tail pos : UInt32) :
    debugLoop q tail pos =
      (q.slotsFrom pos (tail - pos).toNat).map fun k => (k, q.sqes k) := by
  generalize hdist : (tail - pos).toNat = n
  induction n generalizing pos with
  | zero =>
      have hmet : pos = tail := toNat_sub_eq_zero_iff.mp hdist
      rw [debugLoop, if_neg (not_not_intro hmet)]
      rfl
  | succ n ih =>
      have hne : pos ≠ tail := by
        rintro rfl
        rw [UInt32.sub_self] at hdist
        cases hdist
      have hrest : (tail - (pos + 1)).toNat = n := by
        have hnext := toNat_sub_eq_succ hne
        omega
      rw [debugLoop, if_pos hne, ih (pos + 1) hrest, RingSize.slotsFrom_succ, List.map_cons]

/-- The entries that a step pushes. -/
def Event.entries : Event E → List E
  | .pushed entries => entries
  | .borrowed | .refused _ | .published | .loaded | .dropped | .leaked | .read _ => []

/-- As long as no handle is leaked the log is all that has been pushed, in the order of the
pushes. -/
theorem Ledger.log_eq_pushed (l : Ledger E) {events : List (Event E)}
    (hkept : Event.leaked ∉ events) :
    (ledgerAfter Ledger.record l events).log = l.log ++ events.flatMap Event.entries := by
  induction events generalizing l with
  | nil => exact (List.append_nil _).symm
  | cons event rest ih =>
      obtain ⟨hfirst, hrest⟩ := not_or.mp (mt List.mem_cons.mpr hkept)
      have hlog : (l.record event).log = l.log ++ event.entries := by
        cases event with
        | pushed entries => exact l.log_pushed entries
        | leaked => exact absurd rfl hfirst
        | published | dropped => exact l.log_published.trans (List.append_nil _).symm
        | borrowed | refused | loaded | read => exact (List.append_nil _).symm
      calc
        (ledgerAfter Ledger.record (l.record event) rest).log
            = (l.record event).log ++ rest.flatMap Event.entries := ih _ hrest
        _ = l.log ++ (event :: rest).flatMap Event.entries := by
            rw [hlog, List.flatMap_cons, List.append_assoc]

/-- Over every interleaving the loop stops after as many slots as the length, which is at most the
capacity; it reads no slot twice, and what it shows is the end of the log of pushed entries,
also where the kernel has consumed them since the head was cached. -/
theorem debug_shows_pending {q : Inner E} (hroom : (q.tail - q.head).toNat ≤ q.slots)
    {events : List (Event E)} {s : State E} (run : Run Step ⟨q, .none⟩ events s)
    {sq : SubmissionQueue} (hready : s.app = .ready sq) :
    let shown := sq.debug s.q
    let log := (Ledger.of q events).log
    shown.length = sq.len.toNat ∧
      sq.len ≤ SubmissionQueue.capacity s.q ∧
      (shown.map Prod.fst).Nodup ∧
      shown.map Prod.snd = log.drop (log.length - sq.len.toNat) ∧
      (.leaked ∉ events → log = unconsumed q ++ events.flatMap Event.entries) := by
  intro shown log
  obtain ⟨c, h⟩ := Inv.run hroom run
  rw [hready] at h
  have hlen := h.len_eq
  have hle := h.len_le
  have hdist : (sq.tail - sq.head).toNat = sq.len.toNat := (UInt32.toNat_toUInt64 _).symm
  have hshown : shown = (s.q.slotsFrom sq.head sq.len.toNat).map fun k => (k, s.q.sqes k) := by
    rw [← hdist]
    exact debugLoop_eq s.q sq.tail sq.head
  refine ⟨?_, ?_, ?_, ?_, ?_⟩
  · rw [hshown, List.length_map, RingSize.length_slotsFrom]
  · rw [UInt64.le_iff_toNat_le, SubmissionQueue.toNat_capacity]
    exact hle
  · have hslots : shown.map Prod.fst = s.q.slotsFrom sq.head sq.len.toNat := by
      rw [hshown, List.map_map]
      exact List.map_id _
    rw [hslots, h.app.1]
    exact s.q.slotsFrom_nodup hle
  · have hentries : shown.map Prod.snd =
        (s.q.slotsFrom sq.head sq.len.toNat).map s.q.sqes := by
      rw [hshown, List.map_map]
      rfl
    have hcached := h.cached_le
    have hconsumed := h.consumed_le
    have hpublished := (Ledger.of q events).published_le
    rw [hentries, h.app.1, hlen, s.q.map_slotsFrom h.holds (Nat.le_refl c) (by omega),
      List.take_of_length_le (by simp)]
    congr 1
    change c = (Ledger.of q events).log.length - _
    omega
  · intro hkept
    have hstart : (Ledger.start q).log = unconsumed q := List.append_nil _
    rw [← hstart]
    exact Ledger.log_eq_pushed _ hkept

/-- A full ring whose counters have wrapped, printed after the kernel consumed its first entry. -/
theorem debug_shows_pending_wrapping :
    ∃ events s sq, Run Step ⟨wrappingRing, .none⟩ events s ∧ s.app = .ready sq ∧
      sq.tail < sq.head ∧ (Ledger.of wrappingRing events).consumed = [8] ∧
      (sq.debug s.q).map Prod.snd = [8, 9] := by
  have hroom : (wrappingRing.tail - wrappingRing.head).toNat ≤ wrappingRing.slots := by
    decide +kernel
  have batch : Step ⟨wrappingRing, .ready wrappingRing.borrow⟩ (.pushed [8, 9]) _ :=
    .pushMultiple (if_neg (by decide +kernel))
  have run := (((Run.start.next Step.borrow).next batch).next .syncStore).next .syncLoad
  have run := run.next (.kernel (if_neg (by decide +kernel)))
  obtain ⟨-, -, -, hshown, -⟩ := debug_shows_pending hroom run rfl
  exact ⟨_, _, _, run, rfl, by decide +kernel, rfl, hshown.trans (by decide +kernel)⟩

end IoUring.Squeue
