import IoUring.Squeue.Fifo
import IoUring.Submit.Decision

/-!
# The length a submit call works with

`sq_len` loads the head and then the tail, and between the two loads the kernel
may read entries and the holder of the handle may publish some. The value counts
what is consumed meanwhile as if it were still there: it is a length of the queue
as long as nothing is published behind an entry consumed between the loads.
-/

namespace IoUring.Squeue

open Foundation

variable {E : Type*}

namespace Ledger

/-- The ledger after a stretch of a run. -/
def after (l : Ledger E) (events : List (Event E)) : Ledger E := ledgerAfter record l events

/-- The number of entries a stretch publishes. -/
def publishedIn (l : Ledger E) (events : List (Event E)) : Nat :=
  (l.after events).published.length - l.published.length

/-- The number of entries the kernel reads in a stretch. -/
def consumedIn (l : Ledger E) (events : List (Event E)) : Nat :=
  (l.after events).consumed.length - l.consumed.length

variable (l : Ledger E) (a b : List (Event E))

theorem after_append : l.after (a ++ b) = (l.after a).after b :=
  ledgerAfter_append ..

theorem of_append (q : Inner E) : of q (a ++ b) = (of q a).after b :=
  ledgerAfter_append ..

/-- Nothing is unpublished or given back. -/
theorem after_grows :
    l.published.length ≤ (l.after a).published.length ∧
      l.consumed.length ≤ (l.after a).consumed.length := by
  induction a generalizing l with
  | nil => exact ⟨Nat.le_refl _, Nat.le_refl _⟩
  | cons event rest ih =>
      obtain ⟨hpub, hcon⟩ := ih (l.record event)
      have hstep : l.published.length ≤ (l.record event).published.length ∧
          l.consumed.length ≤ (l.record event).consumed.length := by
        cases event <;> simp [record]
      exact ⟨Nat.le_trans hstep.1 hpub, Nat.le_trans hstep.2 hcon⟩

theorem published_after :
    (l.after a).published.length = l.published.length + l.publishedIn a := by
  have h := (l.after_grows a).1
  rw [publishedIn]
  omega

theorem consumed_after :
    (l.after a).consumed.length = l.consumed.length + l.consumedIn a := by
  have h := (l.after_grows a).2
  rw [consumedIn]
  omega

theorem publishedIn_append :
    l.publishedIn (a ++ b) = l.publishedIn a + (l.after a).publishedIn b := by
  have hwhole := l.published_after (a ++ b)
  have hfirst := l.published_after a
  have hsecond := (l.after a).published_after b
  rw [after_append] at hwhole
  omega

theorem consumedIn_append :
    l.consumedIn (a ++ b) = l.consumedIn a + (l.after a).consumedIn b := by
  have hwhole := l.consumed_after (a ++ b)
  have hfirst := l.consumed_after a
  have hsecond := (l.after a).consumed_after b
  rw [after_append] at hwhole
  omega

theorem publishedIn_cons (event : Event E) (rest : List (Event E)) :
    l.publishedIn (event :: rest) =
      l.publishedIn [event] + (l.record event).publishedIn rest :=
  l.publishedIn_append [event] rest

theorem consumedIn_cons (event : Event E) (rest : List (Event E)) :
    l.consumedIn (event :: rest) = l.consumedIn [event] + (l.record event).consumedIn rest :=
  l.consumedIn_append [event] rest

/-- A single step publishes or consumes, not both. -/
theorem publishedIn_or_consumedIn (event : Event E) :
    l.publishedIn [event] = 0 ∨ l.consumedIn [event] = 0 := by
  cases event <;> simp [publishedIn, consumedIn, after, ledgerAfter, record]

variable {l} {events : List (Event E)}

/-- If publications come before consumptions wherever the stretch is cut, one cut has all of
the former on one side and all of the latter on the other. -/
theorem exists_cut
    (h : ∀ a b, a ++ b = events → l.consumedIn a = 0 ∨ (l.after a).publishedIn b = 0) :
    ∃ a b, a ++ b = events ∧ l.consumedIn a = 0 ∧ (l.after a).publishedIn b = 0 := by
  induction events generalizing l with
  | nil => exact ⟨[], [], rfl, by simp [consumedIn, after], by simp [publishedIn, after]⟩
  | cons event rest ih =>
      by_cases hread : l.consumedIn [event] = 0
      · have htail : ∀ a b, a ++ b = rest → (l.record event).consumedIn a = 0 ∨
            ((l.record event).after a).publishedIn b = 0 := by
          intro a b hab
          rcases h (event :: a) b (congrArg (event :: ·) hab) with hcon | hpub
          · left
            rw [consumedIn_cons] at hcon
            omega
          · right
            exact hpub
        obtain ⟨a, b, hab, hcon, hpub⟩ := ih htail
        refine ⟨event :: a, b, congrArg (event :: ·) hab, ?_, hpub⟩
        rw [consumedIn_cons]
        omega
      · have hnext := (h [event] rest rfl).resolve_left hread
        have hfirst := (l.publishedIn_or_consumedIn event).resolve_right hread
        refine ⟨[], event :: rest, rfl, by simp [consumedIn, after], ?_⟩
        change l.publishedIn (event :: rest) = 0
        rw [publishedIn_cons]
        exact Nat.add_eq_zero_iff.mpr ⟨hfirst, hnext⟩

end Ledger

/-- The ring keeps its size. -/
theorem slots_of_run {s s' : State E} {events : List (Event E)} (run : Run Step s events s') :
    s'.q.slots = s.q.slots := by
  induction run with
  | start => rfl
  | next _ h ih => rw [h.frame, ← ih]

namespace Inv

variable {base c : Nat} {l : Ledger E} {q : Inner E} {app : App}

theorem length_unconsumed (h : Inv base l c q app) :
    (unconsumed q).length = l.published.length - l.consumed.length := by
  rw [h.unconsumed_eq, List.length_drop]

theorem length_unconsumed_le (h : Inv base l c q app) : (unconsumed q).length ≤ q.slots := by
  have hpending := h.length_unconsumed
  have hcached := h.cached_le
  have hpub := l.published_le
  have hroom := h.room
  omega

end Inv

end IoUring.Squeue

namespace IoUring.Submit

open Foundation Squeue

variable {E : Type*}

/-- The number a submit call works with: what it returns or passes as `to_submit`. -/
def Outcome.len : Outcome → Nat
  | .ok len => len.toNat
  | .enter call => call.toSubmit.toNat

/-- The length loaded is what comes out of the call, whatever the call decides. -/
theorem Submitter.len_finish (sub : Submitter) (head tail f1 f2 : UInt32) (req : Request) :
    (sub.finish (sqLen head tail) f1 f2 req).len = (sqLen head tail).toNat := by
  rw [sub.finish_eq]
  split
  · rfl
  · simp [Outcome.len, Submitter.enter, sqLen]

/-- Between the two loads nothing is published once something has been consumed. -/
def PublishedFirst (l : Ledger E) (s : State E) (gap : List (Event E)) (s' : State E) : Prop :=
  ∀ i : Instant Step s gap s',
    l.consumedIn i.passed = 0 ∨ (l.after i.passed).publishedIn i.ahead = 0

variable {q : Inner E} {before gap : List (Event E)} {s s' : State E}

/-- The invariant at an instant between the loads. -/
theorem inv_at (hroom : (q.tail - q.head).toNat ≤ q.slots) (run : Run Step ⟨q, .none⟩ before s)
    (i : Instant Step s gap s') :
    ∃ c, Inv q.head.toNat ((Ledger.of q before).after i.passed) c i.state.q i.state.app := by
  rw [← Ledger.of_append]
  exact Inv.run hroom (run.trans i.reached)

/-- The length at an instant, in the counts of the gap. -/
theorem length_at (hroom : (q.tail - q.head).toNat ≤ q.slots) (run : Run Step ⟨q, .none⟩ before s)
    (i : Instant Step s gap s') :
    (unconsumed i.state.q).length + (Ledger.of q before).consumedIn i.passed =
      (unconsumed s.q).length + (Ledger.of q before).publishedIn i.passed := by
  obtain ⟨c, h⟩ := Inv.run hroom run
  obtain ⟨c', h'⟩ := inv_at hroom run i
  have hlen := h.length_unconsumed
  have hlen' := h'.length_unconsumed
  have hle := h.consumed_le
  have hle' := h'.consumed_le
  have hpub := (Ledger.of q before).published_after i.passed
  have hcon := (Ledger.of q before).consumed_after i.passed
  omega

/-- The value of `sq_len`: what was there at the load of the head and what is published after. -/
theorem toNat_sqLen (hroom : (q.tail - q.head).toNat ≤ q.slots)
    (run : Run Step ⟨q, .none⟩ before s) (hgap : Run Step s gap s') :
    (sqLen s.q.head s'.q.tail).toNat =
      ((unconsumed s.q).length + (Ledger.of q before).publishedIn gap) % 2 ^ 32 := by
  obtain ⟨c, h⟩ := Inv.run hroom run
  obtain ⟨c', h'⟩ := Inv.run hroom (run.trans hgap)
  rw [Ledger.of_append] at h'
  have hlen := h.length_unconsumed
  have hle := h.consumed_le
  have hpub := (Ledger.of q before).published_after gap
  rw [sqLen, UInt32.toNat_toUInt64, h.head_eq, h'.tail_eq, ← UInt32.ofNat_sub (by omega),
    UInt32.toNat_ofNat']
  congr 1
  omega

theorem length_at_le (hroom : (q.tail - q.head).toNat ≤ q.slots)
    (run : Run Step ⟨q, .none⟩ before s) (i : Instant Step s gap s') :
    (unconsumed i.state.q).length ≤ q.slots := by
  obtain ⟨c, h⟩ := inv_at hroom run i
  have hslots : i.state.q.slots = q.slots := slots_of_run (run.trans i.reached)
  rw [← hslots]
  exact h.length_unconsumed_le

/-- Publications first: the instant between them and the consumptions has the length loaded. -/
theorem PublishedFirst.exists_instant (hroom : (q.tail - q.head).toNat ≤ q.slots)
    (run : Run Step ⟨q, .none⟩ before s) (hgap : Run Step s gap s')
    (h : PublishedFirst (Ledger.of q before) s gap s') :
    ∃ i : Instant Step s gap s',
      (sqLen s.q.head s'.q.tail).toNat = (unconsumed i.state.q).length := by
  have hcut : ∀ a b, a ++ b = gap → (Ledger.of q before).consumedIn a = 0 ∨
      ((Ledger.of q before).after a).publishedIn b = 0 := by
    intro a b hab
    obtain ⟨i, rfl, rfl⟩ := hgap.instant hab
    exact h i
  obtain ⟨a, b, hab, hcon, hpub⟩ := Ledger.exists_cut hcut
  obtain ⟨i, rfl, rfl⟩ := hgap.instant hab
  have hlen := length_at hroom run i
  have hle := length_at_le hroom run i
  have happ := (Ledger.of q before).publishedIn_append i.passed i.ahead
  have hslots := q.slots_le
  rw [hab] at happ
  refine ⟨i, ?_⟩
  rw [toNat_sqLen hroom run hgap, Nat.mod_eq_of_lt (by omega)]
  omega

/-- While the counters do not make a whole turn, only such a gap has an instant of that length. -/
theorem publishedFirst_of_instant (hroom : (q.tail - q.head).toNat ≤ q.slots)
    (run : Run Step ⟨q, .none⟩ before s) (hgap : Run Step s gap s')
    (hturn : (Ledger.of q before).publishedIn gap + q.slots < 2 ^ 32) (i : Instant Step s gap s')
    (h : (sqLen s.q.head s'.q.tail).toNat = (unconsumed i.state.q).length) :
    PublishedFirst (Ledger.of q before) s gap s' := by
  have hstart := length_at_le hroom run ⟨[], gap, s, rfl, .start, hgap⟩
  have hlen := length_at hroom run i
  have happ := (Ledger.of q before).publishedIn_append i.passed i.ahead
  change (unconsumed s.q).length ≤ q.slots at hstart
  rw [i.whole] at happ
  rw [toNat_sqLen hroom run hgap, Nat.mod_eq_of_lt (by omega)] at h
  intro j
  have hcut : i.passed ++ i.ahead = j.passed ++ j.ahead := by rw [i.whole, j.whole]
  rcases List.append_eq_append_iff.mp hcut with ⟨mid, hj, hi⟩ | ⟨mid, hi, hj⟩
  · right
    have hpub := ((Ledger.of q before).after i.passed).publishedIn_append mid j.ahead
    rw [← hi, ← Ledger.after_append, ← hj] at hpub
    omega
  · left
    have hcon := (Ledger.of q before).consumedIn_append j.passed mid
    rw [← hi] at hcon
    omega

/-- Whatever happens between the two loads of `sq_len`, the call works with its value, which is
the length at the load of the head and what is published in the gap, and at most the capacity
and what is consumed in the gap. It is the length at some instant of the gap, and so within the
capacity, if nothing is published behind an entry consumed in the gap, and only then while the
gap is shorter than a turn of the counters. -/
theorem sq_len_between_loads (hroom : (q.tail - q.head).toNat ≤ q.slots)
    (run : Run Step ⟨q, .none⟩ before s) (hgap : Run Step s gap s') :
    let l := Ledger.of q before
    let len := sqLen s.q.head s'.q.tail
    (∀ (sub : Submitter) (f1 f2 : UInt32) (req : Request),
        (sub.finish len f1 f2 req).len = len.toNat) ∧
      len.toNat = ((unconsumed s.q).length + l.publishedIn gap) % 2 ^ 32 ∧
      len.toNat ≤ (SubmissionQueue.capacity q).toNat + l.consumedIn gap ∧
      (PublishedFirst l s gap s' → len ≤ SubmissionQueue.capacity q ∧
        ∃ i : Instant Step s gap s', len.toNat = (unconsumed i.state.q).length) ∧
      (l.publishedIn gap + (SubmissionQueue.capacity q).toNat < 2 ^ 32 →
        (∃ i : Instant Step s gap s', len.toNat = (unconsumed i.state.q).length) →
        PublishedFirst l s gap s') := by
  intro l len
  rw [SubmissionQueue.toNat_capacity]
  have hlen : len.toNat = ((unconsumed s.q).length + l.publishedIn gap) % 2 ^ 32 :=
    toNat_sqLen hroom run hgap
  refine ⟨fun sub f1 f2 req => sub.len_finish .., hlen, ?_, ?_, ?_⟩
  · let last : Instant Step s gap s' := ⟨gap, [], s', List.append_nil _, hgap, .start⟩
    have hcount : (unconsumed s'.q).length + l.consumedIn gap =
        (unconsumed s.q).length + l.publishedIn gap := length_at hroom run last
    have hle : (unconsumed s'.q).length ≤ q.slots := length_at_le hroom run last
    have hmod := Nat.mod_le ((unconsumed s.q).length + l.publishedIn gap) (2 ^ 32)
    omega
  · intro hfirst
    obtain ⟨i, hi⟩ := hfirst.exists_instant hroom run hgap
    have hle := length_at_le hroom run i
    refine ⟨?_, i, hi⟩
    rw [UInt64.le_iff_toNat_le, SubmissionQueue.toNat_capacity]
    exact hi.trans_le hle
  · rintro hturn ⟨i, hi⟩
    exact publishedFirst_of_instant hroom run hgap hturn i hi

/-- The batch pushed before the load of the head is published and then read from after it: the
value is the length in between. -/
theorem sq_len_between_loads_published :
    ∃ before gap s s', Run Step ⟨wrappingRing, .none⟩ before s ∧ Run Step s gap s' ∧
      (sqLen s.q.head s'.q.tail).toNat = 2 ∧
      ∃ i : Instant Step s gap s',
        (sqLen s.q.head s'.q.tail).toNat = (unconsumed i.state.q).length := by
  have hroom : (wrappingRing.tail - wrappingRing.head).toNat ≤ wrappingRing.slots := by
    decide +kernel
  have batch : Step ⟨wrappingRing, .ready wrappingRing.borrow⟩ (.pushed [7, 8]) _ :=
    .pushMultiple (if_neg (by decide +kernel))
  have run := (Run.start.next .borrow).next batch
  have published : Step ⟨(wrappingRing.borrow.pushAll wrappingRing [7, 8]).2,
      .ready (wrappingRing.borrow.pushAll wrappingRing [7, 8]).1⟩ .published _ := .syncStore
  have gap := (Run.start.next published).next (.kernel (if_neg (by decide +kernel)))
  refine ⟨_, _, _, _, run, gap, by decide +kernel, ?_⟩
  obtain ⟨-, -, -, hfirst, -⟩ := sq_len_between_loads hroom run gap
  refine (hfirst ?_).2
  intro i
  rcases List.append_eq_cons_iff.mp i.whole with ⟨hpassed, -⟩ | ⟨rest, hpassed, hrest⟩
  · left
    rw [hpassed]
    rfl
  · rcases List.append_eq_cons_iff.mp hrest.symm with ⟨rfl, -⟩ | ⟨rest, -, hahead⟩
    · left
      rw [hpassed]
      rfl
    · right
      rw [(List.append_eq_nil_iff.mp hahead.symm).2]
      exact Nat.sub_self _

/-- Two pending entries in a ring of two. -/
def fullRing : Inner Nat := { wrappingRing with tail := 1 }

/-- After the load of the head the kernel reads both entries, and the handle finds that out and
publishes two more. The loads give four, which no instant between them has. -/
theorem sq_len_overshoots :
    ∃ before gap s s', Run Step ⟨fullRing, .none⟩ before s ∧ Run Step s gap s' ∧
      (sqLen s.q.head s'.q.tail).toNat = 4 ∧
      (SubmissionQueue.capacity fullRing).toNat = 2 ∧
      (∀ (sub : Submitter) (f1 f2 : UInt32) (req : Request),
        (sub.finish (sqLen s.q.head s'.q.tail) f1 f2 req).len = 4) ∧
      ∀ i : Instant Step s gap s',
        (unconsumed i.state.q).length ≠ (sqLen s.q.head s'.q.tail).toNat := by
  have hroom : (fullRing.tail - fullRing.head).toNat ≤ fullRing.slots := by decide +kernel
  have run : Run Step ⟨fullRing, .none⟩ [.borrowed] ⟨fullRing, .ready fullRing.borrow⟩ :=
    Run.start.next .borrow
  have first : Step ⟨fullRing, .ready fullRing.borrow⟩ (.read 0) _ :=
    .kernel (if_neg (by decide +kernel))
  have second : Step ⟨{ fullRing with head := 0 }, .ready fullRing.borrow⟩ (.read 0) _ :=
    .kernel (if_neg (by decide +kernel))
  have batch : Step ⟨{ fullRing with head := 1 }, .ready ⟨1, 1⟩⟩ (.pushed [7, 8]) _ :=
    .pushMultiple (if_neg (by decide +kernel))
  have gap := (((((Run.start.next first).next second).next .syncStore).next .syncLoad).next
    batch).next .syncStore
  have hlen : (sqLen fullRing.head 3).toNat = 4 := by decide +kernel
  refine ⟨_, _, _, _, run, gap, hlen, by decide +kernel, ?_, ?_⟩
  · intro sub f1 f2 req
    exact (sub.len_finish ..).trans hlen
  · intro i
    have hle : (unconsumed i.state.q).length ≤ 2 := length_at_le hroom run i
    change _ ≠ (sqLen fullRing.head 3).toNat
    omega

end IoUring.Submit
