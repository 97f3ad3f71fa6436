import IoUring.Foundation.Transition
import IoUring.Cqueue.Queue

/-!
# Completions are delivered exactly once and in order

The kernel posts completions while the published head leaves room; one handle
at a time returns them and gives the slots back in `sync` and `drop`. Four
positions in the log of posted completions matter: the published head, the
handle's head, the handle's tail and the kernel's tail. The invariant keeps
them in this order, within one turn of the ring.
-/

namespace IoUring.Cqueue

open Foundation

variable {E : Type*}

/-- The kernel's step: it fills the slot of its tail while the published head
leaves room, and moves the tail on. -/
def Inner.kernelPost (q : Inner E) (entry : E) : Option (Inner E) :=
  if q.tail - q.head < q.ringEntries then
    some { q with
      tail := q.tail + 1
      cqes := Function.update q.cqes (q.slotOf q.tail) entry }
  else none

/-- The application holds no handle, a handle, or a handle halfway through `sync`. -/
inductive App where
  | none
  | ready (cq : CompletionQueue)
  | syncing (cq : CompletionQueue)

/-- The live handle. -/
def App.handle : App → Option CompletionQueue
  | .none => Option.none
  | .ready cq | .syncing cq => some cq

structure State (E : Type*) where
  q : Inner E
  app : App

/-- Where the application reads next. -/
def readHead (q : Inner E) (app : App) : UInt32 :=
  match app.handle with
  | some cq => cq.head
  | none => q.head

/-- The completions in the ring that the application has not been returned. -/
def unread (q : Inner E) (app : App) : List E :=
  (q.slotsFrom (readHead q app) (q.tail - readHead q app).toNat).map q.cqes

/-- What a step shows to an observer. -/
inductive Event (E : Type*) where
  | borrowed
  | returned (entries : List E)
  | published
  | loaded
  | dropped
  | posted (entry : E)

inductive Step : State E → Event E → State E → Prop
  | borrow {q} : Step ⟨q, .none⟩ .borrowed ⟨q, .ready q.borrowShared⟩
  | next {q cq entry cq'} (h : cq.next q = some (entry, cq')) :
      Step ⟨q, .ready cq⟩ (.returned [entry]) ⟨q, .ready cq'⟩
  | nextNone {q cq} (h : cq.next q = none) :
      Step ⟨q, .ready cq⟩ (.returned []) ⟨q, .ready cq⟩
  | fill {q cq filled entries' cq'} (entries : List (Option E))
      (h : cq.fill q entries = (filled, entries', cq')) :
      Step ⟨q, .ready cq⟩ (.returned filled) ⟨q, .ready cq'⟩
  | syncStore {q cq} : Step ⟨q, .ready cq⟩ .published ⟨cq.storeHead q, .syncing cq⟩
  | syncLoad {q cq} : Step ⟨q, .syncing cq⟩ .loaded ⟨q, .ready (cq.loadTail q)⟩
  | drop {q cq} : Step ⟨q, .ready cq⟩ .dropped ⟨cq.drop q, .none⟩
  | kernel {q app entry q'} (h : q.kernelPost entry = some q') :
      Step ⟨q, app⟩ (.posted entry) ⟨q', app⟩

/-- What the kernel posted and what `next` and `fill` returned, over all handles. -/
structure Ledger (E : Type*) where
  posted : List E
  returned : List E

namespace Ledger

/-- The entries between head and tail are unread when the run starts. -/
def start (q : Inner E) : Ledger E where
  posted := unread q .none
  returned := []

def record (l : Ledger E) : Event E → Ledger E
  | .returned entries => { l with returned := l.returned ++ entries }
  | .posted entry => { l with posted := l.posted ++ [entry] }
  | .borrowed | .published | .loaded | .dropped => l

/-- Only the kernel posts. -/
theorem record_posted (l : Ledger E) {event : Event E} (happ : ∀ entry, event ≠ .posted entry) :
    (l.record event).posted = l.posted := by
  cases event with
  | posted entry => exact absurd rfl (happ entry)
  | _ => rfl

/-- The ledger after a number of posts. -/
def posts (l : Ledger E) (entries : List E) : Ledger E :=
  entries.foldl (fun l entry => l.record (.posted entry)) l

theorem posts_posted (l : Ledger E) (entries : List E) :
    (l.posts entries).posted = l.posted ++ entries := by
  induction entries generalizing l with
  | nil => simp [posts]
  | cons entry rest ih =>
      have hrest := ih (l.record (.posted entry))
      simpa [posts, record] using hrest

/-- How many returned entries the published head is past: a release store catches up. -/
def freed (l : Ledger E) (f : Nat) : Event E → Nat
  | .published | .dropped => l.returned.length
  | .borrowed | .returned _ | .loaded | .posted _ => f

/-- The ledger of a run that starts at `q`. -/
def of (q : Inner E) (events : List (Event E)) : Ledger E :=
  ledgerAfter record (start q) events

end Ledger

/-- The handle's counters: its head behind everything returned, its tail at position `t`. -/
def App.Tracks (base : Nat) (l : Ledger E) (f t : Nat) : App → Prop
  | .none => l.returned.length = f
  | .ready cq | .syncing cq =>
      cq.head = .ofNat (base + l.returned.length) ∧ cq.tail = .ofNat (base + t)

/-- The counters, the slots and the ledger agree. `base` is the position of the
head at the start, `f` that of the published head, `t` that of the last tail a
handle loaded. -/
structure Inv (base : Nat) (l : Ledger E) (f t : Nat) (q : Inner E) (app : App) : Prop where
  head_eq : q.head = .ofNat (base + f)
  tail_eq : q.tail = .ofNat (base + l.posted.length)
  returned_prefix : l.returned <+: l.posted
  freed_le : f ≤ l.returned.length
  returned_le : l.returned.length ≤ t
  cached_le : t ≤ l.posted.length
  room : l.posted.length ≤ f + q.slots
  holds : Holds q.slots base q.cqes l.posted f
  app : app.Tracks base l f t

namespace Inv

variable {base f t : Nat} {l : Ledger E} {q : Inner E} {cq : CompletionQueue} {app : App}

theorem tracks (h : Inv base l f t q app) (hcq : app.handle = some cq) :
    cq.head = .ofNat (base + l.returned.length) ∧ cq.tail = .ofNat (base + t) := by
  cases app with
  | none => cases hcq
  | ready cq =>
      obtain rfl := Option.some.inj hcq
      exact h.app
  | syncing cq =>
      obtain rfl := Option.some.inj hcq
      exact h.app

/-- The handle's length is the number of positions from its head to its tail. -/
theorem len_eq (h : Inv base l f t q app) (hcq : app.handle = some cq) :
    cq.len.toNat = t - l.returned.length := by
  obtain ⟨hhead, htail⟩ := h.tracks hcq
  have hfreed := h.freed_le
  have hreturned := h.returned_le
  have hcached := h.cached_le
  have hroom := h.room
  have hslots := q.slots_le
  rw [CompletionQueue.len_of_positions hhead htail (by omega) (by omega)]
  omega

theorem len_le (h : Inv base l f t q app) (hcq : app.handle = some cq) :
    cq.len ≤ CompletionQueue.capacity q := by
  have hlen := h.len_eq hcq
  have hfreed := h.freed_le
  have hcached := h.cached_le
  have hroom := h.room
  rw [UInt64.le_iff_toNat_le, CompletionQueue.toNat_capacity]
  omega

/-- The unread completions are the posted ones behind those returned. -/
theorem unread_eq (h : Inv base l f t q app) :
    unread q app = l.posted.drop l.returned.length := by
  have hfreed := h.freed_le
  have hreturned := h.returned_le
  have hcached := h.cached_le
  have hroom := h.room
  have hslots := q.slots_le
  have hhead : readHead q app = .ofNat (base + l.returned.length) := by
    cases app with
    | none =>
        have heq : l.returned.length = f := h.app
        rw [heq]
        exact h.head_eq
    | ready cq => exact h.app.1
    | syncing cq => exact h.app.1
  have hpending : (q.tail - readHead q app).toNat = l.posted.length - l.returned.length := by
    rw [hhead, h.tail_eq, toNat_ofNat_sub_ofNat (by omega) (by omega)]
    omega
  rw [unread, hpending, hhead, q.map_slotsFrom h.holds hfreed (by omega),
    List.take_of_length_le (by simp)]

/-- `pop` below the cached tail returns the next posted completion. -/
theorem pop (h : Inv base l f t q (.ready cq)) (hlt : l.returned.length < t) :
    Inv base (l.record (.returned [(cq.pop q).1])) f t q (.ready (cq.pop q).2) := by
  have hposted : l.returned.length < l.posted.length := Nat.lt_of_lt_of_le hlt h.cached_le
  have hentry : (cq.pop q).1 = l.posted[l.returned.length] := by
    simp only [CompletionQueue.pop]
    rw [h.app.1, q.slotOf_ofNat, h.holds _ hposted h.freed_le]
  have hreturned : l.returned = l.posted.take l.returned.length :=
    List.prefix_iff_eq_take.mp h.returned_prefix
  refine { h with
    returned_prefix := ?_
    freed_le := ?_
    returned_le := ?_
    app := ⟨?_, h.app.2⟩ }
  · rw [hentry]
    apply List.prefix_iff_eq_take.mpr
    simp only [Ledger.record, List.length_append, List.length_singleton]
    rw [List.take_succ_eq_append_getElem hposted, ← hreturned]
  · have hfreed := h.freed_le
    simp only [Ledger.record, List.length_append, List.length_singleton]
    omega
  · simpa [Ledger.record] using Nat.succ_le_of_lt hlt
  · simp [CompletionQueue.pop, Ledger.record, h.app.1, ← Nat.add_assoc]

/-- The loop of `fill`, while the handle has an entry for each element of the slice. -/
theorem popEach (h : Inv base l f t q (.ready cq)) (entries : List (Option E))
    (hlen : l.returned.length + entries.length ≤ t) :
    Inv base (l.record (.returned (cq.popEach q entries).1)) f t q
      (.ready (cq.popEach q entries).2) := by
  induction entries generalizing l cq with
  | nil => simpa [CompletionQueue.popEach, Ledger.record] using h
  | cons slot rest ih =>
      rw [List.length_cons] at hlen
      have hfirst := h.pop (by omega)
      have hrest := ih hfirst (by
        simp only [Ledger.record, List.length_append, List.length_singleton]
        omega)
      simpa [CompletionQueue.popEach, Ledger.record] using hrest

/-- `next` returns an entry only below the cached tail. -/
theorem next (h : Inv base l f t q (.ready cq)) {entry : E} {cq' : CompletionQueue}
    (heq : cq.next q = some (entry, cq')) :
    Inv base (l.record (.returned [entry])) f t q (.ready cq') := by
  unfold CompletionQueue.next at heq
  split at heq
  · rename_i hne
    have hpop := Option.some.inj heq
    have hlt : l.returned.length < t := by
      apply Nat.lt_of_le_of_ne h.returned_le
      intro hend
      apply hne
      rw [h.app.1, h.app.2, hend]
    have hnext := h.pop hlt
    rwa [hpop] at hnext
  · cases heq

/-- `fill` takes as many entries as the handle has and the slice holds. -/
theorem fill (h : Inv base l f t q (.ready cq)) {entries entries' : List (Option E)}
    {filled : List E} {cq' : CompletionQueue}
    (heq : cq.fill q entries = (filled, entries', cq')) :
    Inv base (l.record (.returned filled)) f t q (.ready cq') := by
  have hlen : cq.len.toNat = t - l.returned.length := h.len_eq rfl
  have hreturned := h.returned_le
  have hloop := h.popEach (entries.take (min cq.len.toNat entries.length)) (by
    rw [List.length_take]
    omega)
  simp only [CompletionQueue.fill, Prod.mk.injEq] at heq
  obtain ⟨rfl, -, rfl⟩ := heq
  exact hloop

/-- The release store frees the slots of everything returned. -/
theorem storeHead (h : Inv base l f t q (.ready cq)) :
    Inv base l l.returned.length t (cq.storeHead q) (.syncing cq) where
  head_eq := h.app.1
  tail_eq := h.tail_eq
  returned_prefix := h.returned_prefix
  freed_le := Nat.le_refl _
  returned_le := h.returned_le
  cached_le := h.cached_le
  room := Nat.le_trans h.room (Nat.add_le_add_right h.freed_le _)
  holds := h.holds.mono h.freed_le
  app := h.app

/-- The positions between the published head and the kernel's tail. -/
theorem posted_eq (h : Inv base l f t q app) :
    (q.tail - q.head).toNat = l.posted.length - f := by
  have hfreed := h.freed_le
  have hreturned := h.returned_le
  have hcached := h.cached_le
  have hroom := h.room
  have hslots := q.slots_le
  rw [h.head_eq, h.tail_eq, toNat_ofNat_sub_ofNat (by omega) (by omega)]
  omega

/-- The kernel's room test counts the positions between the published head and its tail. -/
theorem kernelPost_room (h : Inv base l f t q app) {entry : E} {q' : Inner E}
    (heq : q.kernelPost entry = some q') :
    l.posted.length < f + q.slots ∧
      { q with
        tail := q.tail + 1
        cqes := Function.update q.cqes (q.slotOf q.tail) entry } = q' := by
  unfold Inner.kernelPost at heq
  split at heq
  · rename_i hlt
    refine ⟨?_, Option.some.inj heq⟩
    rw [UInt32.lt_iff_toNat_lt, h.posted_eq] at hlt
    change _ < q.slots at hlt
    omega
  · cases heq

theorem kernelPost (h : Inv base l f t q app) {entry : E} {q' : Inner E}
    (heq : q.kernelPost entry = some q') :
    Inv base (l.record (.posted entry)) f t q' app := by
  obtain ⟨hlt, rfl⟩ := h.kernelPost_room heq
  refine { h with
    tail_eq := ?_
    returned_prefix := h.returned_prefix.trans (List.prefix_append _ _)
    cached_le := ?_
    room := ?_
    holds := ?_ }
  · simp [Ledger.record, h.tail_eq, ← Nat.add_assoc]
  · have hcached := h.cached_le
    simp only [Ledger.record, List.length_append, List.length_singleton]
    omega
  · simp only [Ledger.record, List.length_append, List.length_singleton]
    exact hlt
  · have hslot : q.slotOf q.tail = (base + l.posted.length) % q.slots := by
      rw [h.tail_eq, q.slotOf_ofNat]
    rw [hslot]
    exact h.holds.write entry hlt

/-- The step lemma: every step of either party carries the invariant over, and only a release
store moves the published head. -/
theorem step_freed {s s' : State E} {event : Event E} (h : Inv base l f t s.q s.app)
    (hstep : Step s event s') :
    ∃ t', Inv base (l.record event) (l.freed f event) t' s'.q s'.app := by
  cases hstep with
  | @borrow q =>
      have hreturned : l.returned.length = f := h.app
      refine ⟨l.posted.length, { h with
        returned_le := h.returned_prefix.length_le
        cached_le := Nat.le_refl _
        app := ⟨?_, h.tail_eq⟩ }⟩
      rw [Ledger.record, hreturned]
      exact h.head_eq
  | next heq => exact ⟨t, h.next heq⟩
  | nextNone => exact ⟨t, by simpa [Ledger.record, Ledger.freed] using h⟩
  | fill _ heq => exact ⟨t, h.fill heq⟩
  | syncStore => exact ⟨t, h.storeHead⟩
  | syncLoad =>
      exact ⟨l.posted.length, { h with
        returned_le := h.returned_prefix.length_le
        cached_le := Nat.le_refl _
        app := ⟨h.app.1, h.tail_eq⟩ }⟩
  | drop => exact ⟨t, { h.storeHead with app := rfl }⟩
  | kernel heq => exact ⟨t, h.kernelPost heq⟩

theorem step {s s' : State E} {event : Event E} (h : Inv base l f t s.q s.app)
    (hstep : Step s event s') : ∃ f' t', Inv base (l.record event) f' t' s'.q s'.app :=
  ⟨_, h.step_freed hstep⟩

/-- A ring found with at most its size unread satisfies the invariant. -/
theorem start (q : Inner E) (hroom : (q.tail - q.head).toNat ≤ q.slots) :
    Inv q.head.toNat (Ledger.start q) 0 0 q .none where
  head_eq := by simp
  tail_eq := by
    simp only [Ledger.start, unread, readHead, App.handle, List.length_map,
      RingSize.length_slotsFrom]
    exact (ofNat_toNat_add_sub q.head q.tail).symm
  returned_prefix := List.nil_prefix
  freed_le := Nat.le_refl _
  returned_le := Nat.le_refl _
  cached_le := Nat.zero_le _
  room := by simpa [Ledger.start, unread, readHead, App.handle] using hroom
  holds := q.holds_slotsFrom q.cqes q.head _
  app := rfl

/-- The run lemma: the invariant holds after every interleaving. -/
theorem run {q : Inner E} (hroom : (q.tail - q.head).toNat ≤ q.slots)
    {events : List (Event E)} {s : State E} (run : Run Step ⟨q, .none⟩ events s) :
    ∃ f t, Inv q.head.toNat (Ledger.of q events) f t s.q s.app :=
  Run.invariant (r := Ledger.record) (g := Ledger.start q)
    (I := fun l (s : State E) => ∃ f t, Inv q.head.toNat l f t s.q s.app)
    (fun _ _ _ _ ⟨_, _, hinv⟩ hstep => hinv.step hstep) ⟨0, 0, start q hroom⟩ run

end Inv

/-- The slots a handle can pop before it loads the tail again. -/
def poppableSlots (q : Inner E) (cq : CompletionQueue) : List Nat :=
  q.slotsFrom cq.head cq.len.toNat

namespace Inv

variable {base f t : Nat} {l : Ledger E} {q : Inner E} {cq : CompletionQueue} {app : App}

/-- What a handle can pop is what comes next in the order of posting. -/
theorem poppable_eq (h : Inv base l f t q app) (hcq : app.handle = some cq) :
    (poppableSlots q cq).map q.cqes =
      (l.posted.drop l.returned.length).take cq.len.toNat := by
  have hlen := h.len_eq hcq
  have hreturned := h.returned_le
  have hcached := h.cached_le
  rw [poppableSlots, (h.tracks hcq).1]
  exact q.map_slotsFrom h.holds h.freed_le (by omega)

/-- Behind a `sync`, `next` finds nothing exactly if everything posted has been returned. -/
theorem next_sync_eq_none_iff (h : Inv base l f t q app) (hcq : app.handle = some cq) :
    (cq.sync q).1.next (cq.sync q).2 = none ↔ l.returned = l.posted := by
  have hle := h.returned_prefix.length_le
  have hfreed := h.freed_le
  have hroom := h.room
  have hslots := q.slots_le
  have hnext : (cq.sync q).1.next (cq.sync q).2 = none ↔ q.tail = cq.head :=
    CompletionQueue.next_eq_none_iff.trans eq_comm
  rw [hnext, h.tail_eq, (h.tracks hcq).1, ofNat_eq_ofNat_iff (by omega) (by omega)]
  constructor
  · intro heq
    exact h.returned_prefix.eq_of_length (by omega)
  · intro heq
    rw [heq]

/-- The slot the kernel fills next is none that a handle can still pop. -/
theorem kernelPost_spares (h : Inv base l f t q app) (hcq : app.handle = some cq) {entry : E}
    {q' : Inner E} (heq : q.kernelPost entry = some q') :
    q.slotOf q.tail ∉ poppableSlots q cq := by
  have hlen := h.len_eq hcq
  have hcached := h.cached_le
  have hfreed := h.freed_le
  have hroom := (h.kernelPost_room heq).1
  rw [poppableSlots, (h.tracks hcq).1, q.mem_slotsFrom, h.tail_eq, q.slotOf_ofNat]
  rintro ⟨i, hi, hslot⟩
  rw [Nat.add_assoc] at hslot
  exact slot_ne (show l.returned.length + i < l.posted.length by omega) (by omega) hslot

end Inv

/-- A post writes no slot but that of the tail. -/
theorem Inner.kernelPost_frame {q q' : Inner E} {entry : E}
    (heq : q.kernelPost entry = some q') {k : Nat} (hk : k ≠ q.slotOf q.tail) :
    q'.cqes k = q.cqes k := by
  unfold Inner.kernelPost at heq
  split at heq
  · obtain rfl := Option.some.inj heq
    exact Function.update_of_ne hk _ _
  · cases heq

/-- Over every interleaving: what `next` and `fill` returned is a prefix of what
was posted, and all of it exactly if `next` finds nothing behind a `sync`; the slots a
handle can pop hold the completions that come next; the kernel's next post writes none
of them; and the length stays within the capacity. -/
theorem completions_delivered_once {q : Inner E} (hroom : (q.tail - q.head).toNat ≤ q.slots)
    {events : List (Event E)} {s : State E} (run : Run Step ⟨q, .none⟩ events s) :
    (Ledger.of q events).returned <+: (Ledger.of q events).posted ∧
      ∀ cq, s.app.handle = some cq →
        ((cq.sync s.q).1.next (cq.sync s.q).2 = none ↔
          (Ledger.of q events).returned = (Ledger.of q events).posted) ∧
        cq.len ≤ CompletionQueue.capacity s.q ∧
        (poppableSlots s.q cq).map s.q.cqes =
          ((Ledger.of q events).posted.drop (Ledger.of q events).returned.length).take
            cq.len.toNat ∧
        ∀ entry q', s.q.kernelPost entry = some q' →
          s.q.slotOf s.q.tail ∉ poppableSlots s.q cq ∧
          ∀ k ∈ poppableSlots s.q cq, q'.cqes k = s.q.cqes k := by
  obtain ⟨f, t, h⟩ := Inv.run hroom run
  refine ⟨h.returned_prefix, fun cq hcq =>
    ⟨h.next_sync_eq_none_iff hcq, h.len_le hcq, h.poppable_eq hcq, ?_⟩⟩
  intro entry q' hpost
  have hspared := h.kernelPost_spares hcq hpost
  refine ⟨hspared, fun k hk => Inner.kernelPost_frame hpost ?_⟩
  rintro rfl
  exact hspared hk

/-- One unread completion in two slots, with the counters about to wrap. -/
def wrappingRing : Inner Nat where
  toRingSize := .two
  head := 4294967295
  tail := 0
  overflow := 0
  flags := 0
  cqes := fun k => k + 5

/-- The unread completion is returned while a second is posted across the wrap; `fill` into a
longer slice returns the second after `sync`, and the next `sync` finds nothing more. -/
theorem completions_delivered_once_wrapping :
    ∃ events s cq, Run Step ⟨wrappingRing, .none⟩ events s ∧ s.app.handle = some cq ∧
      (Ledger.of wrappingRing events).returned = [6, 9] ∧
      (Ledger.of wrappingRing events).posted = [6, 9] ∧
      (Ledger.of wrappingRing events).returned <+: (Ledger.of wrappingRing events).posted ∧
      (cq.sync s.q).1.next (cq.sync s.q).2 = none := by
  have hroom : (wrappingRing.tail - wrappingRing.head).toNat ≤ wrappingRing.slots := by
    decide +kernel
  have first : Step ⟨wrappingRing, .ready wrappingRing.borrow⟩ (.returned [6]) _ :=
    .next (if_pos (by decide +kernel))
  have posted : Step ⟨wrappingRing, .ready (wrappingRing.borrow.pop wrappingRing).2⟩
      (.posted 9) _ := .kernel (if_pos (by decide +kernel))
  have run := ((((Run.start.next Step.borrow).next first).next posted).next .syncStore).next
    .syncLoad
  have run := run.next (.fill [none, none, none] rfl)
  obtain ⟨hreturned, hhandle⟩ := completions_delivered_once hroom run
  exact ⟨_, _, _, run, rfl, by decide +kernel, rfl, hreturned,
    (hhandle _ rfl).1.mpr (by decide +kernel)⟩

end IoUring.Cqueue
