import IoUring.Foundation.Transition
import IoUring.Squeue.Queue

/-!
# The submission ring is a lossless bounded FIFO

One handle at a time pushes and publishes while the kernel reads published
entries. The interleaving is given by the order of the steps; `sync` is its two
atomic accesses, so kernel steps may fall between them. Three tails exist: the
handle's own, the published one, and the position up to which the kernel has
read. The ledger keeps the entries on both sides of the published tail and what
the kernel read, and the invariant ties all counters to positions in it.
-/

namespace IoUring.Squeue

open Foundation

variable {E : Type*}

/-- The kernel's step: it reads the slot of its head while head and published
tail differ, and moves the head on. -/
def Inner.kernelRead (q : Inner E) : Option (E × Inner E) :=
  if q.head = q.tail then none
  else some (q.sqes (q.slotOf q.head), { q with head := q.head + 1 })

/-- The application holds no handle, a handle, or a handle halfway through `sync`. -/
inductive App where
  | none
  | ready (sq : SubmissionQueue)
  | syncing (sq : SubmissionQueue)

structure State (E : Type*) where
  q : Inner E
  app : App

/-- The published entries that the kernel has not consumed. -/
def unconsumed (q : Inner E) : List E :=
  (q.slotsFrom q.head (q.tail - q.head).toNat).map q.sqes

/-- What a step shows to an observer. -/
inductive Event (E : Type*) where
  | borrowed
  | pushed (entries : List E)
  | refused (entries : List E)
  | published
  | loaded
  | dropped
  | leaked
  | read (entry : E)

inductive Step : State E → Event E → State E → Prop
  | borrow {q} : Step ⟨q, .none⟩ .borrowed ⟨q, .ready q.borrowShared⟩
  | push {q sq entry sq' q'} (h : sq.push q entry = .ok (sq', q')) :
      Step ⟨q, .ready sq⟩ (.pushed [entry]) ⟨q', .ready sq'⟩
  | pushError {q sq entry err} (h : sq.push q entry = .error err) :
      Step ⟨q, .ready sq⟩ (.refused [entry]) ⟨q, .ready sq⟩
  | pushMultiple {q sq entries sq' q'} (h : sq.pushMultiple q entries = .ok (sq', q')) :
      Step ⟨q, .ready sq⟩ (.pushed entries) ⟨q', .ready sq'⟩
  | pushMultipleError {q sq entries err} (h : sq.pushMultiple q entries = .error err) :
      Step ⟨q, .ready sq⟩ (.refused entries) ⟨q, .ready sq⟩
  | syncStore {q sq} : Step ⟨q, .ready sq⟩ .published ⟨sq.storeTail q, .syncing sq⟩
  | syncLoad {q sq} : Step ⟨q, .syncing sq⟩ .loaded ⟨q, .ready (sq.loadHead q)⟩
  | drop {q sq} : Step ⟨q, .ready sq⟩ .dropped ⟨sq.drop q, .none⟩
  -- `mem::forget` of the handle: its destructor never runs
  | leak {q sq} : Step ⟨q, .ready sq⟩ .leaked ⟨q, .none⟩
  | kernel {q app entry q'} (h : q.kernelRead = some (entry, q')) :
      Step ⟨q, app⟩ (.read entry) ⟨q', app⟩

/-- The steps write head, tail and entries, and nothing else. -/
theorem Step.frame {s s' : State E} {event : Event E} (h : Step s event s') :
    s'.q = { s.q with head := s'.q.head, tail := s'.q.tail, sqes := s'.q.sqes } := by
  cases h with
  | @push q sq entry sq' q' heq =>
      obtain ⟨-, hpair⟩ := SubmissionQueue.of_push heq
      obtain ⟨-, rfl⟩ := Prod.mk.inj hpair
      rfl
  | @pushMultiple q sq entries sq' q' heq =>
      have hwrites : q' = { q with sqes := q'.sqes } := by
        have h := sq.pushAll_writes q entries
        rwa [(SubmissionQueue.of_pushMultiple heq).2] at h
      change q' = { q with head := q'.head, tail := q'.tail, sqes := q'.sqes }
      rw [hwrites]
  | @kernel q app entry q' heq =>
      unfold Inner.kernelRead at heq
      split at heq
      · cases heq
      · obtain ⟨-, rfl⟩ := Prod.mk.inj (Option.some.inj heq)
        rfl
  | _ => rfl

theorem Step.flags_eq {s s' : State E} {event : Event E} (h : Step s event s') :
    s'.q.flags = s.q.flags := by
  rw [h.frame]

/-- The queue as its users see it: what has been published, what the live
handle has pushed since, and what the kernel has read. -/
structure Ledger (E : Type*) where
  published : List E
  unpublished : List E
  consumed : List E

namespace Ledger

/-- The entries between head and published tail are pending when the run starts. -/
def start (q : Inner E) : Ledger E where
  published := unconsumed q
  unpublished := []
  consumed := []

def record (l : Ledger E) : Event E → Ledger E
  | .pushed entries => { l with unpublished := l.unpublished ++ entries }
  | .published | .dropped =>
      { l with published := l.published ++ l.unpublished, unpublished := [] }
  | .leaked => { l with unpublished := [] }
  | .read entry => { l with consumed := l.consumed ++ [entry] }
  | .borrowed | .refused _ | .loaded => l

/-- The ledger of a run that starts at `q`. -/
def of (q : Inner E) (events : List (Event E)) : Ledger E :=
  ledgerAfter record (start q) events

/-- Everything pushed and not lost, in push order. -/
def log (l : Ledger E) : List E := l.published ++ l.unpublished

@[simp] theorem length_log (l : Ledger E) :
    l.log.length = l.published.length + l.unpublished.length := by
  simp [log]

theorem published_le (l : Ledger E) : l.published.length ≤ l.log.length := by
  simp

@[simp] theorem log_published (l : Ledger E) : (l.record .published).log = l.log := by
  simp [record, log]

theorem log_pushed (l : Ledger E) (entries : List E) :
    (l.record (.pushed entries)).log = l.log ++ entries := by
  simp [record, log]

/-- Only the kernel consumes. -/
theorem record_consumed (l : Ledger E) {event : Event E} (happ : ∀ entry, event ≠ .read entry) :
    (l.record event).consumed = l.consumed := by
  cases event with
  | read entry => exact absurd rfl (happ entry)
  | _ => rfl

end Ledger

/-- The handle's counters: its head at position `c`, its tail at the end of the log. -/
def App.Tracks (base : Nat) (l : Ledger E) (c : Nat) : App → Prop
  | .none => l.unpublished = []
  | .ready sq | .syncing sq =>
      sq.head = .ofNat (base + c) ∧ sq.tail = .ofNat (base + l.log.length)

/-- The counters, the slots and the ledger agree. `base` is the position of the
head at the start, `c` the position of the last head a handle loaded: the
kernel may have moved past it. -/
structure Inv (base : Nat) (l : Ledger E) (c : Nat) (q : Inner E) (app : App) : Prop where
  head_eq : q.head = .ofNat (base + l.consumed.length)
  tail_eq : q.tail = .ofNat (base + l.published.length)
  consumed_prefix : l.consumed <+: l.published
  cached_le : c ≤ l.consumed.length
  room : l.log.length ≤ c + q.slots
  holds : Holds q.slots base q.sqes l.log c
  app : app.Tracks base l c

namespace Inv

variable {base c : Nat} {l : Ledger E} {q : Inner E} {sq : SubmissionQueue} {app : App}

theorem consumed_le (h : Inv base l c q app) : l.consumed.length ≤ l.published.length :=
  h.consumed_prefix.length_le

/-- The handle's length is the number of log positions from its cached head on. -/
theorem len_eq (h : Inv base l c q (.ready sq)) : sq.len.toNat = l.log.length - c := by
  obtain ⟨hhead, htail⟩ := h.app
  have hcached := h.cached_le
  have hle := h.consumed_le
  have hpub := l.published_le
  have hroom := h.room
  have hslots := q.slots_le
  rw [SubmissionQueue.len_of_positions hhead htail (by omega) (by omega)]
  omega

theorem len_le (h : Inv base l c q (.ready sq)) : sq.len.toNat ≤ q.slots := by
  have hlen := h.len_eq
  have hroom := h.room
  omega

/-- The room the handle computes is the room there is: the subtraction does not wrap. -/
theorem capacity_sub_len (h : Inv base l c q (.ready sq)) :
    (SubmissionQueue.capacity q - sq.len).toNat = c + q.slots - l.log.length := by
  have hlen := h.len_eq
  have hcap := SubmissionQueue.toNat_capacity q
  have hcached := h.cached_le
  have hle := h.consumed_le
  have hpub := l.published_le
  have hroom := h.room
  rw [UInt64.toNat_sub_of_le _ _ (by rw [UInt64.le_iff_toNat_le]; omega), hlen, hcap]
  omega

/-- Kernel and handle seen from the tail of the queue: the head the kernel
published is the position of everything consumed. -/
theorem pending_eq (h : Inv base l c q (.ready sq)) :
    (sq.tail - q.head).toNat = l.log.length - l.consumed.length := by
  have hle := h.consumed_le
  have hpub := l.published_le
  have hcached := h.cached_le
  have hroom := h.room
  have hslots := q.slots_le
  rw [h.app.2, h.head_eq, toNat_ofNat_sub_ofNat (by omega) (by omega)]
  omega

/-- The unconsumed entries are the published ones behind those consumed. -/
theorem unconsumed_eq (h : Inv base l c q app) :
    unconsumed q = l.published.drop l.consumed.length := by
  have hle := h.consumed_le
  have hpub := l.published_le
  have hcached := h.cached_le
  have hroom := h.room
  have hslots := q.slots_le
  have hpending : (q.tail - q.head).toNat = l.published.length - l.consumed.length := by
    rw [h.head_eq, h.tail_eq, toNat_ofNat_sub_ofNat (by omega) (by omega)]
    omega
  rw [unconsumed, hpending, h.head_eq, q.map_slotsFrom h.holds hcached (by omega), Ledger.log,
    List.drop_append_of_le_length hle, List.take_append_of_le_length (by simp),
    List.take_of_length_le (by simp)]

/-- One push into free room writes the next position of the log. -/
theorem pushUnchecked (h : Inv base l c q (.ready sq)) (entry : E)
    (hroom : l.log.length < c + q.slots) :
    Inv base (l.record (.pushed [entry])) c
      (sq.pushUnchecked q entry).2 (.ready (sq.pushUnchecked q entry).1) where
  head_eq := h.head_eq
  tail_eq := h.tail_eq
  consumed_prefix := h.consumed_prefix
  cached_le := h.cached_le
  room := by
    rw [Ledger.log_pushed, List.length_append]
    exact hroom
  holds := by
    have hslot : q.slotOf sq.tail = (base + l.log.length) % q.slots := by
      rw [h.app.2, q.slotOf_ofNat]
    rw [Ledger.log_pushed]
    simp only [SubmissionQueue.pushUnchecked, hslot]
    exact h.holds.write entry hroom
  app := by
    refine ⟨h.app.1, ?_⟩
    rw [Ledger.log_pushed, List.length_append, List.length_singleton, ← Nat.add_assoc]
    simp [SubmissionQueue.pushUnchecked, h.app.2]

/-- The loop of `push_multiple`, while all its entries fit. -/
theorem pushAll (h : Inv base l c q (.ready sq)) (entries : List E)
    (hroom : l.log.length + entries.length ≤ c + q.slots) :
    Inv base (l.record (.pushed entries)) c
      (sq.pushAll q entries).2 (.ready (sq.pushAll q entries).1) := by
  induction entries generalizing l q sq with
  | nil => simpa [SubmissionQueue.pushAll, Ledger.record] using h
  | cons entry rest ih =>
      rw [List.length_cons] at hroom
      have hfirst := h.pushUnchecked entry (by omega)
      have hrest := ih hfirst (by
        rw [Ledger.log_pushed, List.length_append, List.length_singleton]
        change _ ≤ c + q.slots
        omega)
      simpa [SubmissionQueue.pushAll, Ledger.record] using hrest

/-- A push that succeeds is a batch of one. -/
theorem push_eq_pushMultiple (h : Inv base l c q (.ready sq)) {entry : E}
    {sq' : SubmissionQueue} {q' : Inner E} (heq : sq.push q entry = .ok (sq', q')) :
    sq.pushMultiple q [entry] = .ok (sq', q') := by
  obtain ⟨hlen, hpair⟩ := SubmissionQueue.of_push heq
  have hfits : ¬ (SubmissionQueue.capacity q - sq.len).toNat < [entry].length := by
    have hlog := h.len_eq
    have hcached := h.cached_le
    have hle := h.consumed_le
    have hpub := l.published_le
    have hroom := h.room
    rw [h.capacity_sub_len, List.length_singleton]
    omega
  rw [SubmissionQueue.pushMultiple, if_neg hfits, SubmissionQueue.pushAll, hpair]
  rfl

/-- A batch that succeeds fitted into the room there was. -/
theorem of_pushMultiple (h : Inv base l c q (.ready sq)) {entries : List E}
    {sq' : SubmissionQueue} {q' : Inner E}
    (heq : sq.pushMultiple q entries = .ok (sq', q')) :
    entries.length ≤ c + q.slots - l.log.length ∧ sq.pushAll q entries = (sq', q') := by
  obtain ⟨hfits, hpair⟩ := SubmissionQueue.of_pushMultiple heq
  rw [h.capacity_sub_len] at hfits
  exact ⟨hfits, hpair⟩

theorem pushMultiple (h : Inv base l c q (.ready sq)) {entries : List E}
    {sq' : SubmissionQueue} {q' : Inner E}
    (heq : sq.pushMultiple q entries = .ok (sq', q')) :
    Inv base (l.record (.pushed entries)) c q' (.ready sq') := by
  obtain ⟨hfits, hpair⟩ := h.of_pushMultiple heq
  have hroom := h.room
  have hnext := h.pushAll entries (by omega)
  rwa [hpair] at hnext

/-- The release store makes the whole log published. -/
theorem storeTail (h : Inv base l c q (.ready sq)) :
    Inv base (l.record .published) c (sq.storeTail q) (.syncing sq) where
  head_eq := h.head_eq
  tail_eq := h.app.2
  consumed_prefix := h.consumed_prefix.trans (List.prefix_append _ _)
  cached_le := h.cached_le
  room := by
    rw [Ledger.log_published]
    exact h.room
  holds := by
    rw [Ledger.log_published]
    exact h.holds
  app := by
    rw [App.Tracks, Ledger.log_published]
    exact h.app

/-- The kernel reads the next published position and no other. -/
theorem kernelRead (h : Inv base l c q app) {entry : E} {q' : Inner E}
    (heq : q.kernelRead = some (entry, q')) :
    Inv base (l.record (.read entry)) c q' app := by
  unfold Inner.kernelRead at heq
  split at heq
  · cases heq
  · rename_i hne
    obtain ⟨rfl, rfl⟩ := Prod.mk.inj (Option.some.inj heq)
    have hpub := l.published_le
    have hcached := h.cached_le
    have hlt : l.consumed.length < l.published.length := by
      have hle := h.consumed_le
      apply Nat.lt_of_le_of_ne hle
      intro hend
      apply hne
      rw [h.head_eq, h.tail_eq, hend]
    have hentry : q.sqes (q.slotOf q.head) = l.published[l.consumed.length] := by
      rw [h.head_eq, q.slotOf_ofNat, h.holds _ (by omega) hcached]
      exact List.getElem_append_left hlt
    refine { h with
      head_eq := ?_
      consumed_prefix := ?_
      cached_le := ?_ }
    · simp [Ledger.record, h.head_eq, ← Nat.add_assoc]
    · change l.consumed ++ [_] <+: l.published
      obtain ⟨rest, hrest⟩ := h.consumed_prefix
      rw [hentry]
      exact List.prefix_iff_eq_take.mpr (by
        have htake := List.prefix_iff_eq_take.mp h.consumed_prefix
        rw [List.length_append, List.length_singleton, List.take_succ_eq_append_getElem hlt,
          ← htake])
    · simp only [Ledger.record, List.length_append, List.length_singleton]
      omega

/-- The step lemma: every step of either party carries the invariant over. -/
theorem step {s s' : State E} {event : Event E} (h : Inv base l c s.q s.app)
    (hstep : Step s event s') : ∃ c', Inv base (l.record event) c' s'.q s'.app := by
  cases hstep with
  | @borrow q =>
      have hun : l.unpublished = [] := h.app
      refine ⟨l.consumed.length, { h with
        cached_le := Nat.le_refl _
        room := ?_
        holds := h.holds.mono h.cached_le
        app := ⟨h.head_eq, ?_⟩ }⟩
      · have hcached := h.cached_le
        have hroom := h.room
        change l.log.length ≤ l.consumed.length + q.slots
        change l.log.length ≤ c + q.slots at hroom
        omega
      · change q.tail = _
        rw [h.tail_eq]
        simp [Ledger.record, hun]
  | push heq => exact ⟨c, h.pushMultiple (h.push_eq_pushMultiple heq)⟩
  | pushError => exact ⟨c, h⟩
  | pushMultiple heq => exact ⟨c, h.pushMultiple heq⟩
  | pushMultipleError => exact ⟨c, h⟩
  | syncStore => exact ⟨c, h.storeTail⟩
  | @syncLoad q sq =>
      refine ⟨l.consumed.length, { h with
        cached_le := Nat.le_refl _
        room := ?_
        holds := h.holds.mono h.cached_le
        app := ⟨h.head_eq, h.app.2⟩ }⟩
      have hcached := h.cached_le
      have hroom := h.room
      change l.log.length ≤ l.consumed.length + q.slots
      change l.log.length ≤ c + q.slots at hroom
      omega
  | drop => exact ⟨c, { h.storeTail with app := rfl }⟩
  | leak =>
      refine ⟨c, { h with
        room := ?_
        holds := ?_
        app := rfl }⟩
      · have hroom := h.room
        have hpub := l.published_le
        simp only [Ledger.record, Ledger.log, List.append_nil]
        exact Nat.le_trans hpub hroom
      · simp only [Ledger.record, Ledger.log, List.append_nil]
        exact Holds.forget h.holds
  | kernel heq => exact ⟨c, h.kernelRead heq⟩

/-- A ring found with at most its size pending satisfies the invariant. -/
theorem start (q : Inner E) (hroom : (q.tail - q.head).toNat ≤ q.slots) :
    Inv q.head.toNat (Ledger.start q) 0 q .none where
  head_eq := by simp [Ledger.start]
  tail_eq := by
    simp only [Ledger.start, unconsumed, List.length_map, RingSize.length_slotsFrom]
    exact (ofNat_toNat_add_sub q.head q.tail).symm
  consumed_prefix := List.nil_prefix
  cached_le := Nat.le_refl _
  room := by
    simpa [Ledger.start, Ledger.log, unconsumed] using hroom
  holds := by
    have hlog : (Ledger.start q).log = unconsumed q := List.append_nil _
    rw [hlog]
    exact q.holds_slotsFrom q.sqes q.head _
  app := rfl

/-- The run lemma: the invariant holds after every interleaving. -/
theorem run {q : Inner E} (hroom : (q.tail - q.head).toNat ≤ q.slots)
    {events : List (Event E)} {s : State E} (run : Run Step ⟨q, .none⟩ events s) :
    ∃ c, Inv q.head.toNat (Ledger.of q events) c s.q s.app :=
  Run.invariant (r := Ledger.record) (g := Ledger.start q)
    (I := fun l (s : State E) => ∃ c, Inv q.head.toNat l c s.q s.app)
    (fun _ _ _ _ ⟨_, hinv⟩ hstep => hinv.step hstep) ⟨0, start q hroom⟩ run

/-- A kernel that finds head and tail equal has read everything published. -/
theorem consumed_all (h : Inv base l c q app) (heq : q.head = q.tail) :
    l.consumed = l.published := by
  have hle := h.consumed_le
  have hpub := l.published_le
  have hcached := h.cached_le
  have hroom := h.room
  have hslots := q.slots_le
  rw [h.head_eq, h.tail_eq] at heq
  have hend := (ofNat_eq_ofNat_iff (by omega) (by omega)).mp heq.symm
  exact h.consumed_prefix.eq_of_length (by omega)

end Inv

/-- The loop of `push_multiple` writes the slots from the local tail on and no others. -/
theorem SubmissionQueue.pushAll_frame (sq : SubmissionQueue) (q : Inner E)
    (entries : List E) {k : Nat} (hk : k ∉ q.slotsFrom sq.tail entries.length) :
    (sq.pushAll q entries).2.sqes k = q.sqes k := by
  induction entries generalizing sq q with
  | nil => rfl
  | cons entry rest ih =>
      rw [List.length_cons, RingSize.slotsFrom_succ, List.mem_cons, not_or] at hk
      have hrest := ih (sq.pushUnchecked q entry).1 (sq.pushUnchecked q entry).2 hk.2
      exact hrest.trans (Function.update_of_ne hk.1 _ _)

/-- The slots between the kernel's head and the local tail: entries published or
pushed and not yet read. -/
def pendingSlots (q : Inner E) (sq : SubmissionQueue) : List Nat :=
  q.slotsFrom q.head (sq.tail - q.head).toNat

/-- A batch that fits goes to slots that hold no pending entry. -/
theorem Inv.pendingSlots_disjoint {base c : Nat} {l : Ledger E} {q : Inner E}
    {sq : SubmissionQueue} (h : Inv base l c q (.ready sq)) {n : Nat}
    (hfits : n ≤ c + q.slots - l.log.length) :
    List.Disjoint (pendingSlots q sq) (q.slotsFrom sq.tail n) := by
  have hle := h.consumed_le
  have hpub := l.published_le
  have hcached := h.cached_le
  have hroom := h.room
  have htail : sq.tail = UInt32.ofNat
      (base + l.consumed.length + (l.log.length - l.consumed.length)) := by
    rw [h.app.2]
    congr 1
    omega
  rw [pendingSlots, h.pending_eq, h.head_eq, htail]
  exact q.slotsFrom_disjoint (by omega)

/-- Over every interleaving: the kernel reads a prefix of the published entries,
all of them when it finds the ring empty, so nothing is lost, duplicated,
reordered or read early; the handle never counts more than the capacity; and a
push or a batch writes only slots of entries that are not pending. -/
theorem submission_ring_fifo {q : Inner E} (hroom : (q.tail - q.head).toNat ≤ q.slots)
    {events : List (Event E)} {s : State E} (run : Run Step ⟨q, .none⟩ events s) :
    (Ledger.of q events).consumed <+: (Ledger.of q events).published ∧
      (s.q.head = s.q.tail → (Ledger.of q events).consumed = (Ledger.of q events).published) ∧
      ∀ sq, s.app = .ready sq →
        sq.len ≤ SubmissionQueue.capacity s.q ∧
        ∀ entries sq' q',
          (sq.pushMultiple s.q entries = .ok (sq', q') ∨
            ∃ entry, entries = [entry] ∧ sq.push s.q entry = .ok (sq', q')) →
          List.Disjoint (pendingSlots s.q sq) (s.q.slotsFrom sq.tail entries.length) ∧
          ∀ k ∉ s.q.slotsFrom sq.tail entries.length, q'.sqes k = s.q.sqes k := by
  obtain ⟨c, h⟩ := Inv.run hroom run
  refine ⟨h.consumed_prefix, h.consumed_all, ?_⟩
  intro sq happ
  rw [happ] at h
  constructor
  · rw [UInt64.le_iff_toNat_le, SubmissionQueue.toNat_capacity]
    exact h.len_le
  · intro entries sq' q' hpush
    have hmultiple : sq.pushMultiple s.q entries = .ok (sq', q') := by
      rcases hpush with hmany | ⟨entry, rfl, hone⟩
      · exact hmany
      · exact h.push_eq_pushMultiple hone
    obtain ⟨hfits, hpair⟩ := h.of_pushMultiple hmultiple
    refine ⟨h.pendingSlots_disjoint hfits, ?_⟩
    intro k hk
    have hframe := sq.pushAll_frame s.q entries hk
    rwa [hpair] at hframe

/-- Two free slots and counters about to wrap. -/
def wrappingRing : Inner Nat where
  toRingSize := .two
  head := 4294967295
  tail := 4294967295
  flags := 0
  dropped := 0
  sqes := fun _ => 0

/-- A push is leaked with its handle; then a batch fills the ring across the
wrap, and the kernel reads its first entry. -/
theorem submission_ring_fifo_wrapping :
    ∃ events s, Run Step ⟨wrappingRing, .none⟩ events s ∧
      (Ledger.of wrappingRing events).consumed = [8] ∧
      (Ledger.of wrappingRing events).published = [8, 9] ∧
      (Ledger.of wrappingRing events).consumed <+:
        (Ledger.of wrappingRing events).published := by
  have hroom : (wrappingRing.tail - wrappingRing.head).toNat ≤ wrappingRing.slots := by
    decide +kernel
  have pushed : Step ⟨wrappingRing, .ready wrappingRing.borrow⟩ (.pushed [7]) _ :=
    .push (if_pos (by decide +kernel))
  have run := ((Run.start.next Step.borrow).next pushed).next .leak
  have batch : Step ⟨(wrappingRing.borrow.pushUnchecked wrappingRing 7).2,
      .ready wrappingRing.borrow⟩ (.pushed [8, 9]) _ := .pushMultiple (if_neg (by decide +kernel))
  have run := (((run.next .borrow).next batch).next .syncStore).next
    (.kernel (if_neg (by decide +kernel)))
  exact ⟨_, _, run, rfl, rfl, (submission_ring_fifo hroom run).1⟩

end IoUring.Squeue
