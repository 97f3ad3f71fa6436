import IoUring.Squeue.Fifo

/-!
# The index array and the direct mode

Unless NO_SQARRAY is set the kernel finds a submission entry through an array of
indices, which `Inner::new` fills with the identity. Nobody writes to it later,
and the slot of every counter is one of its indices, so both modes are the ring
that the kernel reads without an array.
-/

namespace IoUring.Squeue

open Foundation (Run)

variable {E : Type*}

/-- The shared memory of a submission ring: what `Inner` designates, and the index array. -/
structure Memory (E : Type*) extends Inner E where
  array : Nat → UInt32

/-- The loop of `Inner::new` over the indices below the bound. -/
def writeIdentity (array : Nat → UInt32) : Nat → Nat → UInt32
  | 0 => array
  | i + 1 => Function.update (writeIdentity array i) i (.ofNat i)

namespace Memory

/-- What `Inner::new` writes, with the flags of the parameters. -/
def new (flags : UInt32) (m : Memory E) : Memory E :=
  if flags &&& Sys.ioringSetupNoSqarray == 0 then
    { m with array := writeIdentity m.array m.ringEntries.toNat }
  else m

/-- The kernel takes the next published entry. It looks the index up unless there is no
array, and skips and counts an index that is not below the number of entries. -/
def kernelRead (flags : UInt32) (m : Memory E) : Option (Option E × Memory E) :=
  if m.head = m.tail then none
  else if flags &&& Sys.ioringSetupNoSqarray == 0 then
    let index := m.array (m.slotOf m.head)
    if index < m.ringEntries then some (some (m.sqes index.toNat), { m with head := m.head + 1 })
    else some (none, { m with head := m.head + 1, dropped := m.dropped + 1 })
  else some (some (m.sqes (m.slotOf m.head)), { m with head := m.head + 1 })

end Memory

namespace Indirection

structure State (E : Type*) where
  memory : Memory E
  app : App

/-- What a step shows: the application's event, the entry that the kernel read and at which
head, an index that it skipped, or `Inner::new` over the live ring. -/
inductive Event (E : Type*) where
  | app (event : Squeue.Event E)
  | read (head : UInt32) (entry : E)
  | skipped (head : UInt32)
  | renewed

inductive Step (flags : UInt32) : State E → Event E → State E → Prop
  | app {memory app event q' app'}
      (h : Squeue.Step ⟨memory.toInner, app⟩ event ⟨q', app'⟩)
      (happ : ∀ entry, event ≠ .read entry) :
      Step flags ⟨memory, app⟩ (.app event) ⟨{ memory with toInner := q' }, app'⟩
  | read {memory app entry memory'} (h : memory.kernelRead flags = some (some entry, memory')) :
      Step flags ⟨memory, app⟩ (.read memory.head entry) ⟨memory', app⟩
  | skip {memory app memory'} (h : memory.kernelRead flags = some (none, memory')) :
      Step flags ⟨memory, app⟩ (.skipped memory.head) ⟨memory', app⟩
  | renew {memory app} : Step flags ⟨memory, app⟩ .renewed ⟨memory.new flags, app⟩

/-- The ring without an array: the kernel reads the slot of its head. -/
inductive PlainStep : Squeue.State E → Event E → Squeue.State E → Prop
  | app {s event s'} (h : Squeue.Step s event s') (happ : ∀ entry, event ≠ .read entry) :
      PlainStep s (.app event) s'
  | read {q app entry q'} (h : q.kernelRead = some (entry, q')) :
      PlainStep ⟨q, app⟩ (.read q.head entry) ⟨q', app⟩
  | renew {s} : PlainStep s .renewed s

/-- The array, where there is one, is the identity on the slots of the ring. -/
def Faithful (flags : UInt32) (m : Memory E) : Prop :=
  flags &&& Sys.ioringSetupNoSqarray = 0 → ∀ k < m.slots, m.array k = .ofNat k

theorem writeIdentity_of_lt {array : Nat → UInt32} {n k : Nat} (h : k < n) :
    writeIdentity array n k = .ofNat k := by
  induction n with
  | zero => exact absurd h (Nat.not_lt_zero k)
  | succ n ih =>
      by_cases heq : k = n
      · rw [heq, writeIdentity, Function.update_self]
      · rw [writeIdentity, Function.update_of_ne heq]
        exact ih (by omega)

theorem writeIdentity_of_ge {array : Nat → UInt32} {n k : Nat} (h : n ≤ k) :
    writeIdentity array n k = array k := by
  induction n with
  | zero => rfl
  | succ n ih =>
      rw [writeIdentity, Function.update_of_ne (by omega)]
      exact ih (by omega)

/-- The loop reaches every slot, the last one included. -/
theorem faithful_new (flags : UInt32) (m : Memory E) : Faithful flags (m.new flags) := by
  intro hflags k hk
  rw [Memory.new, if_pos (beq_iff_eq.mpr hflags)] at hk ⊢
  exact writeIdentity_of_lt hk

/-- Over a live ring it writes what is there already. -/
theorem new_of_faithful {flags : UInt32} {m : Memory E} (h : Faithful flags m) :
    m.new flags = m := by
  rw [Memory.new]
  split
  · rename_i hflags
    have harray : writeIdentity m.array m.ringEntries.toNat = m.array := by
      funext k
      by_cases hk : k < m.ringEntries.toNat
      · rw [writeIdentity_of_lt hk, h (beq_iff_eq.mp hflags) k hk]
      · exact writeIdentity_of_ge (Nat.not_lt.mp hk)
    rw [harray]
  · rfl

/-- The index of every counter's slot is the slot, so nothing is skipped. -/
theorem kernelRead_of_faithful {flags : UInt32} {m : Memory E} (h : Faithful flags m) :
    m.kernelRead flags =
      m.toInner.kernelRead.map fun read => (some read.1, { m with toInner := read.2 }) := by
  unfold Memory.kernelRead Inner.kernelRead
  by_cases hempty : m.head = m.tail
  · rw [if_pos hempty, if_pos hempty]
    rfl
  · rw [if_neg hempty, if_neg hempty]
    by_cases hflags : flags &&& Sys.ioringSetupNoSqarray = 0
    · have hslot := m.slotOf_lt m.head
      have hslots := m.slots_le
      have hindex : m.array (m.slotOf m.head) = .ofNat (m.slotOf m.head) := h hflags _ hslot
      have hnat : (UInt32.ofNat (m.slotOf m.head)).toNat = m.slotOf m.head :=
        UInt32.toNat_ofNat_of_lt' (show m.slotOf m.head < 2 ^ 32 by omega)
      have hlt : UInt32.ofNat (m.slotOf m.head) < m.ringEntries := by
        rw [UInt32.lt_iff_toNat_lt, hnat]
        exact hslot
      simp only [beq_iff_eq.mpr hflags, if_true, hindex, hlt, hnat]
      rfl
    · simp only [beq_eq_false_iff_ne.mpr hflags]
      rfl

/-- The steps write head, tail and entries, and nothing else. -/
theorem PlainStep.frame {s s' : Squeue.State E} {event : Event E} (h : PlainStep s event s') :
    s'.q = { s.q with head := s'.q.head, tail := s'.q.tail, sqes := s'.q.sqes } := by
  cases h with
  | app h => exact h.frame
  | @read q app entry q' h =>
      have hkernel : Squeue.Step ⟨q, app⟩ (.read entry) ⟨q', app⟩ := .kernel h
      exact hkernel.frame
  | renew => rfl

/-- The relation of the simulation: the ring with its array and the ring without. -/
structure Matches (flags : UInt32) (array : Nat → UInt32) (s : State E) (t : Squeue.State E) :
    Prop where
  toInner_eq : s.memory.toInner = t.q
  app_eq : s.app = t.app
  array_eq : s.memory.array = array
  faithful : Faithful flags s.memory

/-- A ring of the same size with the same array is as faithful. -/
theorem Matches.of_frame {flags : UInt32} {array : Nat → UInt32} {s : State E}
    {t t' : Squeue.State E} {event : Event E} (h : Matches flags array s t)
    (hstep : PlainStep t event t') : Matches flags array ⟨⟨t'.q, array⟩, t'.app⟩ t' where
  toInner_eq := rfl
  app_eq := rfl
  array_eq := rfl
  faithful := by
    intro hflags k hk
    rw [← h.array_eq]
    apply h.faithful hflags k
    rw [h.toInner_eq]
    rw [hstep.frame] at hk
    exact hk

/-- Every step of the ring with an array is one of the ring without. -/
theorem Step.matched {flags : UInt32} {array : Nat → UInt32} {s s' : State E} {event : Event E}
    {t : Squeue.State E} (h : Matches flags array s t) (hstep : Step flags s event s') :
    ∃ t', PlainStep t event t' ∧ Matches flags array s' t' := by
  obtain ⟨⟨q, a⟩, app⟩ := s
  obtain ⟨q₁, app₁⟩ := t
  obtain rfl : q = q₁ := h.toInner_eq
  obtain rfl : app = app₁ := h.app_eq
  obtain rfl : a = array := h.array_eq
  cases hstep with
  | @app _ _ _ q' app' hq happ =>
      have hplain : PlainStep ⟨q, app⟩ _ ⟨q', app'⟩ := .app hq happ
      exact ⟨_, hplain, h.of_frame hplain⟩
  | read hread =>
      rw [kernelRead_of_faithful h.faithful] at hread
      obtain ⟨⟨entry, q'⟩, hq, heq⟩ := Option.map_eq_some_iff.mp hread
      cases heq
      have hplain : PlainStep ⟨q, app⟩ _ ⟨q', app⟩ := .read hq
      exact ⟨_, hplain, h.of_frame hplain⟩
  | skip hread =>
      rw [kernelRead_of_faithful h.faithful] at hread
      obtain ⟨read, -, heq⟩ := Option.map_eq_some_iff.mp hread
      cases heq
  | renew =>
      refine ⟨_, .renew, ?_⟩
      rw [new_of_faithful h.faithful]
      exact h

/-- And conversely. -/
theorem PlainStep.matched {flags : UInt32} {array : Nat → UInt32} {s : State E}
    {t t' : Squeue.State E} {event : Event E} (h : Matches flags array s t)
    (hstep : PlainStep t event t') :
    ∃ s', Step flags s event s' ∧ Matches flags array s' t' := by
  refine ⟨⟨⟨t'.q, array⟩, t'.app⟩, ?_, h.of_frame hstep⟩
  obtain ⟨⟨q, a⟩, app⟩ := s
  obtain ⟨q₁, app₁⟩ := t
  obtain rfl : q = q₁ := h.toInner_eq
  obtain rfl : app = app₁ := h.app_eq
  obtain rfl : a = array := h.array_eq
  cases hstep with
  | app hq happ => exact .app hq happ
  | read hq =>
      refine .read ?_
      rw [kernelRead_of_faithful h.faithful, hq]
      rfl
  | renew =>
      have hnew := new_of_faithful h.faithful
      have hrenew : Step flags ⟨⟨q, a⟩, app⟩ .renewed ⟨Memory.new flags ⟨q, a⟩, app⟩ := .renew
      rwa [hnew] at hrenew

/-- `Inner::new` leaves the words of the ring and the entries as they are. -/
theorem new_toInner (flags : UInt32) (m : Memory E) : (m.new flags).toInner = m.toInner := by
  unfold Memory.new
  split <;> rfl

theorem matches_new (flags : UInt32) (m : Memory E) (app : App) :
    Matches flags (m.new flags).array ⟨m.new flags, app⟩ ⟨m.toInner, app⟩ :=
  ⟨new_toInner flags m, rfl, rfl, faithful_new flags m⟩

variable {flags : UInt32} {m : Memory E} {events : List (Event E)}

/-- Runs from `Inner::new` are runs of the ring without an array. -/
theorem Step.run_matched {s : State E}
    (run : Run (Step flags) ⟨m.new flags, .none⟩ events s) :
    ∃ t, Run PlainStep ⟨m.toInner, .none⟩ events t ∧
      Matches flags (m.new flags).array s t :=
  run.simulate (R := Matches flags (m.new flags).array) (matches_new flags m .none)
    fun _ _ _ _ h hstep => hstep.matched h

theorem PlainStep.run_matched {t : Squeue.State E}
    (run : Run PlainStep ⟨m.toInner, .none⟩ events t) :
    ∃ s, Run (Step flags) ⟨m.new flags, .none⟩ events s ∧
      Matches flags (m.new flags).array s t :=
  run.simulate (R := fun t s => Matches flags (m.new flags).array s t)
    (matches_new flags m .none) fun _ _ _ _ h hstep => hstep.matched h

/-- Nothing is skipped in the ring without an array, and so nothing counted. -/
theorem PlainStep.run_dropped {t₀ t : Squeue.State E} (run : Run PlainStep t₀ events t) :
    t.q.dropped = t₀.q.dropped ∧ ∀ head, .skipped head ∉ events := by
  induction run with
  | start => exact ⟨rfl, fun _ => List.not_mem_nil⟩
  | next _ h ih =>
      obtain ⟨hdropped, hskipped⟩ := ih
      constructor
      · rw [h.frame, hdropped]
      · intro head hmem
        rcases List.mem_append.mp hmem with hmem | hmem
        · exact hskipped head hmem
        · rw [← List.mem_singleton.mp hmem] at h
          cases h

variable {indirect direct : UInt32}

/-- A run in one mode from `Inner::new` is a run in the other mode, with the same reads at
the same heads, to the same ring. -/
theorem run_other {flags' : UInt32} {s : State E}
    (run : Run (Step flags) ⟨m.new flags, .none⟩ events s) :
    Run (Step flags') ⟨m.new flags', .none⟩ events
      ⟨⟨s.memory.toInner, (m.new flags').array⟩, s.app⟩ := by
  obtain ⟨t, plain, h⟩ := Step.run_matched run
  obtain ⟨s', run', h'⟩ := @PlainStep.run_matched E flags' m events t plain
  obtain ⟨⟨q, array⟩, app⟩ := s'
  obtain rfl : q = s.memory.toInner := h'.toInner_eq.trans h.toInner_eq.symm
  obtain rfl : app = s.app := h'.app_eq.trans h.app_eq.symm
  obtain rfl : array = (m.new flags').array := h'.array_eq
  exact run'

/-- From `Inner::new` on, whatever the ring held before, the kernel with the array and the
kernel without take the same entries at the same heads in every run. The first counts
nothing in `dropped`, the array stays the identity, and `Inner::new` over the live ring
leaves all of it as it is. -/
theorem modes_agree (hindirect : indirect &&& Sys.ioringSetupNoSqarray = 0)
    (hdirect : direct &&& Sys.ioringSetupNoSqarray ≠ 0) (m : Memory E) :
    (∀ events s, Run (Step indirect) ⟨m.new indirect, .none⟩ events s →
        Run (Step direct) ⟨m.new direct, .none⟩ events
            ⟨{ s.memory with array := m.array }, s.app⟩ ∧
          s.memory.dropped = m.dropped ∧ (∀ head, .skipped head ∉ events) ∧
          (∀ k < s.memory.slots, s.memory.array k = .ofNat k) ∧
          s.memory.new indirect = s.memory) ∧
      ∀ events s, Run (Step direct) ⟨m.new direct, .none⟩ events s →
        Run (Step indirect) ⟨m.new indirect, .none⟩ events
          ⟨{ s.memory with array := (m.new indirect).array }, s.app⟩ := by
  have hunchanged : (m.new direct).array = m.array := by
    rw [Memory.new, if_neg (by rwa [beq_iff_eq])]
  constructor
  · intro events s run
    obtain ⟨t, plain, h⟩ := Step.run_matched run
    obtain ⟨hdropped, hskipped⟩ := PlainStep.run_dropped plain
    refine ⟨?_, ?_, hskipped, h.faithful hindirect, new_of_faithful h.faithful⟩
    · rw [← hunchanged]
      exact run_other run
    · rw [h.toInner_eq]
      exact hdropped
  · intro events s run
    exact run_other run

/-- The entry 8 at the wrap of the counters, read without the array and then with one. -/
theorem modes_agree_wrapping :
    let start : Memory Nat := { wrappingRing with array := fun _ => 7 }
    let events : List (Event Nat) :=
      [.app .borrowed, .app (.pushed [8]), .app .dropped, .read 4294967295 8, .renewed]
    ∃ s, Run (Step Sys.ioringSetupNoSqarray) ⟨start.new Sys.ioringSetupNoSqarray, .none⟩ events s ∧
      Run (Step 0) ⟨start.new 0, .none⟩ events
        ⟨{ s.memory with array := (start.new 0).array }, s.app⟩ := by
  intro start events
  let sq : SubmissionQueue := (wrappingRing.borrow.pushUnchecked wrappingRing 8).1
  let published : Memory Nat :=
    { start with toInner := sq.drop (wrappingRing.borrow.pushUnchecked wrappingRing 8).2 }
  have run : Run (Step Sys.ioringSetupNoSqarray) ⟨start, .none⟩ [] _ := .start
  have run := run.next (.app .borrow fun _ => nofun)
  have pushed : Squeue.Step ⟨wrappingRing, .ready wrappingRing.borrow⟩ (.pushed [8]) _ :=
    .push (if_pos (by decide +kernel))
  have run := (run.next (.app pushed fun _ => nofun)).next (.app .drop fun _ => nofun)
  have hentry : published.sqes (published.slotOf published.head) = 8 := by decide +kernel
  have hread : published.kernelRead Sys.ioringSetupNoSqarray =
      some (some 8, { published with head := published.head + 1 }) := by
    rw [Memory.kernelRead, if_neg (by decide +kernel), if_neg (by decide), hentry]
  have run := (run.next (.read hread)).next .renew
  exact ⟨_, run, (modes_agree (by decide) (by decide) start).2 _ _ run⟩

end Indirection

end IoUring.Squeue
