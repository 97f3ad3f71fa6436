import IoUring.Foundation.Progress
import IoUring.Sqpoll.WakeUp

/-!
# Whatever a call has covered is consumed

A call that comes back leaves nothing to be done for the entries published
before it: either it found the flag down behind its fence, and the thread will
see the tail before it sleeps, or it has woken the thread. So the thread, if
only it goes on while it is awake, consumes them, and the application need not
call again.
-/

namespace IoUring.Sqpoll

open Foundation Squeue Submit

variable {E : Type*} {base c k : Nat} {l l' : Ledger} {b : Shared E} {app : App} {pc : Pc}
  {thread thread' : Thread} {s : Submitter} {σ σ' : State E} {event : Event}

namespace Ledger

theorem published_le_record (l : Ledger) (event : Event) :
    l.published ≤ (l.record event).published := by
  cases event <;> simp [record]

/-- A call only ever covers more than the last one. -/
theorem mark_le_record (h : l.mark ≤ l.published) (event : Event) :
    l.mark ≤ (l.record event).mark := by
  cases event with
  | called => exact h
  | _ => exact Nat.le_refl _

end Ledger

namespace Inv

/-- The tail in memory is at no lower position than one that it stands for. -/
theorem le_tail (h : Inv base l c k b app pc thread) {p : Nat}
    (htail : b.mem.tail = .ofNat (base + p)) (hle : p ≤ l.published) :
    p ≤ k := by
  by_contra hlt
  have hslots := b.mem.slots_le
  have hcached := h.cached_le
  have hconsumed := h.consumed_le
  have hroom := h.room
  have heq := htail.symm.trans h.tail_eq
  rw [ofNat_eq_ofNat_iff (show base + k ≤ base + p by omega) (by omega)] at heq
  omega

/-- The step lemma once more: the tail in memory never goes back. -/
theorem step_covers (h : Inv base l c k σ.shared σ.app σ.pc σ.thread)
    (hstep : Step s σ event σ') :
    ∃ c' k', Inv base (l.record event) c' k' σ'.shared σ'.app σ'.pc σ'.thread ∧ k ≤ k' := by
  obtain ⟨c', k', h'⟩ := h.step hstep
  refine ⟨c', k', h', ?_⟩
  have htails := h.tails.le
  have hpublished := l.published_le_record event
  cases hstep with
  | @drain b b' _ _ _ heq =>
      obtain ⟨mem, buf⟩ := b
      cases buf with
      | nil => cases heq
      | cons store rest =>
          obtain rfl := Option.some.inj heq
          cases store with
          | sqe slot entry => exact h'.le_tail h.tail_eq htails
          | tail value =>
              obtain ⟨p, hle, hvalue, hrest⟩ := h.tails
              exact hle.trans (h'.le_tail hvalue hrest.le)
  | @consume b _ _ entry q' heq =>
      have htail : q'.tail = b.mem.tail := by
        unfold Inner.kernelRead at heq
        split at heq
        · cases heq
        · obtain ⟨-, rfl⟩ := Prod.mk.inj (Option.some.inj heq)
          rfl
      exact h'.le_tail (htail.trans h.tail_eq) htails
  | _ => exact h'.le_tail h.tail_eq (htails.trans hpublished)

end Inv

/-! ## What a call that comes back leaves behind -/

/-- The call has covered what it had to, and the thread does not sleep over it. -/
def Settled (l : Ledger) (k : Nat) (thread : Thread) : Pc → Prop
  | .idle => l.mark ≤ k ∧ (thread.decided = true → l.mark ≤ l.consumed)
  | .entering call => l.mark ≤ k ∧
      (call.flag &&& Sys.ioringEnterSqWakeup = 0 → thread.decided = true →
        l.mark ≤ l.consumed)
  | _ => True

/-- The thread decides to sleep only when it has consumed up to the tail in memory. -/
theorem Settled.keep (h : Settled l k thread pc) {k' : Nat} (hmark : l'.mark = l.mark)
    (hk : k ≤ k') (hconsumed : l.consumed ≤ l'.consumed)
    (hdecided : thread'.decided = true → thread.decided = true ∨ k ≤ l'.consumed) :
    Settled l' k' thread' pc := by
  cases pc with
  | idle =>
      rw [Settled, hmark]
      refine ⟨h.1.trans hk, fun hdec => ?_⟩
      rcases hdecided hdec with hbefore | hall
      · exact (h.2 hbefore).trans hconsumed
      · exact h.1.trans hall
  | entering call =>
      rw [Settled, hmark]
      refine ⟨h.1.trans hk, fun hzero hdec => ?_⟩
      rcases hdecided hdec with hbefore | hall
      · exact (h.2 hzero hbefore).trans hconsumed
      · exact h.1.trans hall
  | _ => trivial

/-- A call that enters without a wake-up has found the flag down. -/
theorem needWakeup_of_enter (hpoll : s.params.isSetupSqpoll = true) {len : UInt64}
    {f1 f2 : UInt32} {req : Request} {call : EnterCall}
    (h : s.finish len f1 f2 req = .enter call)
    (hflag : call.flag &&& Sys.ioringEnterSqWakeup = 0) : sqNeedWakeup f2 = false := by
  rw [s.finish_eq] at h
  split at h
  · cases h
  · obtain rfl := Outcome.enter.inj h
    apply Bool.eq_false_iff.mpr
    intro hup
    have hbits := Submitter.flagWord_bits req.hasArgs (s.getsEvents req.want f1) (s.wakes f2)
      (decide (s.enterRingFd ≥ 0))
    rw [s.enter_enterFlags] at hflag
    exact hbits.2.2.1.mpr ((s.wakes_iff f2).mpr ⟨hpoll, hup⟩) hflag

/-- A call that finds the flag down behind its fence has covered what it had to: the thread has
not decided to sleep. -/
theorem Inv.covered_of_down (h : Inv base l c k b app pc thread) (hpast : pc.pastFence = true)
    (hdown : sqNeedWakeup b.mem.flags = false) {k' : Nat} (hk : k ≤ k') :
    l.mark ≤ k' ∧ (thread.decided = true → l.mark ≤ l.consumed) := by
  refine ⟨(h.fenced hpast).trans hk, fun hdecided => ?_⟩
  have hup := h.flag (Thread.flagUp_of_decided hdecided)
  exact absurd (hdown.symm.trans hup) Bool.false_ne_true

/-- The step lemma: the invariant and what the last call has settled. -/
theorem Inv.step_settled (hpoll : s.params.isSetupSqpoll = true)
    (h : Inv base l c k σ.shared σ.app σ.pc σ.thread) (hs : Settled l k σ.thread σ.pc)
    (hstep : Step s σ event σ') :
    ∃ c' k', (Inv base (l.record event) c' k' σ'.shared σ'.app σ'.pc σ'.thread ∧ k ≤ k') ∧
      Settled (l.record event) k' σ'.thread σ'.pc := by
  obtain ⟨c', k', h', hk⟩ := h.step_covers hstep
  refine ⟨c', k', ⟨h', hk⟩, ?_⟩
  cases hstep with
  | borrow | push | pushError | syncStore | syncLoad | drop | drain | otherFlags =>
      exact hs.keep rfl hk (Nat.le_refl _) .inl
  | call | loadHead | loadTail | loadOverflow | fence | ask | askFence => trivial
  | @returnOk b _ _ _ _ _ _ heq =>
      have hdown := finish_ok heq
      rw [seen_flags] at hdown
      exact h.covered_of_down rfl hdown hk
  | @enter b _ _ _ _ _ _ heq =>
      refine ⟨(h.fenced rfl).trans hk, fun hzero => ?_⟩
      have hdown := needWakeup_of_enter hpoll heq hzero
      rw [seen_flags] at hdown
      exact (h.covered_of_down rfl hdown hk).2
  | @askFalse b _ _ hdown =>
      rw [SubmissionQueue.needWakeup, seen_flags] at hdown
      exact h.covered_of_down rfl hdown hk
  | askTrue _ hflag => exact ⟨(h.fenced rfl).trans hk, fun hzero => absurd hzero hflag⟩
  | wake => exact ⟨hs.1.trans hk, fun hdec => by cases hdec⟩
  | noWake hzero => exact ⟨hs.1.trans hk, hs.2 hzero⟩
  | consume => exact hs.keep rfl hk (Nat.le_succ _) fun hdec => by cases hdec
  | findNone | raise | barrier | recheckFound | clear =>
      exact hs.keep rfl hk (Nat.le_refl _) fun hdec => by cases hdec
  | recheckEmpty hempty =>
      exact hs.keep rfl hk (Nat.le_refl _) fun _ => .inr (h.empty_iff.mp hempty).le
  | sleep => exact hs.keep rfl hk (Nat.le_refl _) fun _ => .inl rfl

/-! ## The thread comes to it -/

/-- How far the thread is from consuming, as long as the ring in memory is not empty. -/
def Thread.rank : Thread → Nat
  | .polling | .retiring | .asleep => 0
  | .clearing => 1
  | .fenced => 2
  | .flagged => 3
  | .foundNone => 4

/-- There are entries below position `m` to consume, and the thread does not sleep over them. -/
structure Due (base m : Nat) (l : Ledger) (σ : State E) : Prop where
  inv : ∃ c k, Inv base l c k σ.shared σ.app σ.pc σ.thread ∧ m ≤ k
  awake : σ.thread.decided = false
  lt : l.consumed < m

/-- How many entries the thread has to consume, and how far it is from the next one. -/
def rank (m : Nat) (l : Ledger) (σ : State E) : Nat := (m - l.consumed) * 5 + σ.thread.rank

variable {m : Nat}

namespace Due

/-- While entries are due the ring in memory is not empty. -/
theorem ne_empty (h : Due base m l σ) : σ.shared.mem.head ≠ σ.shared.mem.tail := by
  obtain ⟨c, k, hinv, hle⟩ := h.inv
  have hlt := h.lt
  rw [ne_eq, hinv.empty_iff]
  omega

/-- A step that consumes nothing leaves them due. -/
theorem keep (h : Due base m l σ) (hstep : Step s σ event σ')
    (hconsumed : (l.record event).consumed = l.consumed) (hawake : σ'.thread.decided = false) :
    Due base m (l.record event) σ' where
  inv := by
    obtain ⟨c, k, hinv, hle⟩ := h.inv
    obtain ⟨c', k', hinv', hk⟩ := hinv.step_covers hstep
    exact ⟨c', k', hinv', hle.trans hk⟩
  awake := hawake
  lt := by
    rw [hconsumed]
    exact h.lt

/-- One step: the entries are consumed, or they stay due and the rank does not rise; when the
thread acts it falls. -/
theorem step (h : Due base m l σ) (hstep : Step s σ event σ') :
    m ≤ (l.record event).consumed ∨ Due base m (l.record event) σ' ∧
      rank m (l.record event) σ' ≤ rank m l σ ∧
      (event = .consumed ∨ σ'.thread ≠ σ.thread →
        rank m (l.record event) σ' < rank m l σ) := by
  have hlt := h.lt
  have hawake := h.awake
  have hnonempty := h.ne_empty
  have hkeep := h.keep hstep
  cases hstep with
  | borrow | push | pushError | syncStore | syncLoad | drop | drain | call | loadHead | loadTail
  | loadOverflow | fence | returnOk | enter | ask | askFence | askFalse | askTrue | noWake
  | otherFlags =>
      refine .inr ⟨hkeep rfl hawake, Nat.le_refl _, ?_⟩
      rintro (hevent | hmoved)
      · cases hevent
      · exact absurd rfl hmoved
  | @wake b app thread call =>
      refine .inr ⟨hkeep rfl rfl, Nat.le_add_right _ _, ?_⟩
      rintro (hevent | hmoved)
      · cases hevent
      · apply Nat.lt_add_of_pos_right
        cases thread with
        | polling => exact absurd rfl hmoved
        | retiring | asleep => cases hawake
        | foundNone | flagged | fenced | clearing => exact Nat.succ_pos _
  | @consume b app pc entry q' heq =>
      obtain ⟨c, k, hinv, hle⟩ := h.inv
      by_cases hlast : m ≤ l.consumed + 1
      · exact .inl hlast
      · have hfalls : rank m (l.record .consumed) (⟨{ b with mem := q' }, app, pc, .polling⟩ :
            State E) < rank m l (⟨b, app, pc, .polling⟩ : State E) := by
          simp only [rank, Ledger.record, Thread.rank]
          omega
        exact .inr ⟨⟨⟨c, k, hinv.consume heq, hle⟩, rfl, Nat.lt_of_not_le hlast⟩, hfalls.le,
          fun _ => hfalls⟩
  | findNone hempty | recheckEmpty hempty => exact absurd hempty hnonempty
  | raise | barrier | recheckFound | clear =>
      have hfalls : ∀ n : Nat, n < n + 1 := Nat.lt_succ_self
      exact .inr ⟨hkeep rfl rfl, (hfalls _).le, fun _ => hfalls _⟩
  | sleep => cases hawake

end Due

section Course

variable {q : Inner E} (c : Course (Step s) (⟨⟨q, []⟩, .none, .idle, thread⟩ : State E))

/-- The run lemma: at every instant the last call that came back is settled. -/
theorem Inv.course (hpoll : s.params.isSetupSqpoll = true)
    (hroom : (q.tail - q.head).toNat ≤ q.slots)
    (hflag : thread.flagUp = true → SubmissionQueue.needWakeup q = true) (i : Nat) :
    ∃ p k, Inv q.head.toNat (Ledger.of q (c.labels i)) p k (c.state i).shared (c.state i).app
        (c.state i).pc (c.state i).thread ∧
      Settled (Ledger.of q (c.labels i)) k (c.state i).thread (c.state i).pc := by
  have hsettled : Settled (Ledger.start q) (q.tail - q.head).toNat thread .idle :=
    ⟨Nat.zero_le _, fun _ => Nat.le_refl _⟩
  refine Run.invariant (r := Ledger.record) (g := Ledger.start q)
    (I := fun l (σ : State E) => ∃ p k, Inv q.head.toNat l p k σ.shared σ.app σ.pc σ.thread ∧
      Settled l k σ.thread σ.pc) ?_ ⟨0, _, Inv.start q hroom hflag, hsettled⟩ (c.run i)
  rintro l σ event σ' ⟨p, k, hinv, hs⟩ hstep
  obtain ⟨p', k', ⟨hinv', -⟩, hs'⟩ := hinv.step_settled hpoll hs hstep
  exact ⟨p', k', hinv', hs'⟩

theorem ledger_succ (i : Nat) : Ledger.of q (c.labels (i + 1)) =
    (Ledger.of q (c.labels i)).record (c.label i) :=
  c.ledgerAfter_succ Ledger.record (Ledger.start q) i

/-- A call covers what had been published when it began, and every later call covers that too. -/
theorem mark_of_call (hroom : (q.tail - q.head).toNat ≤ q.slots)
    (hflag : thread.flagUp = true → SubmissionQueue.needWakeup q = true) {i j : Nat}
    (hcall : c.label i = .called) (hij : i < j) :
    (Ledger.of q (c.labels i)).published ≤ (Ledger.of q (c.labels j)).mark := by
  induction j, hij using Nat.le_induction with
  | base =>
      rw [ledger_succ, hcall]
      exact Nat.le_refl _
  | succ j hij ih =>
      obtain ⟨p, k, hinv⟩ := Inv.run hroom hflag (c.run j)
      rw [ledger_succ]
      exact ih.trans (Ledger.mark_le_record hinv.mark_le _)

/-- What is due is consumed, since the thread's rank falls with every act of its own. -/
theorem due_consumed (m : Nat)
    (hgoes : LeadsTo (fun i => (c.state i).thread ≠ .asleep) fun i =>
      c.label i = .consumed ∨ (c.state (i + 1)).thread ≠ (c.state i).thread) :
    LeadsTo (fun n => Due q.head.toNat m (Ledger.of q (c.labels n)) (c.state n))
      fun n => m ≤ (Ledger.of q (c.labels n)).consumed := by
  have hnext (n : Nat) (hn : Due q.head.toNat m (Ledger.of q (c.labels n)) (c.state n)) :=
    ledger_succ c n ▸ hn.step (c.step n)
  have hacts : LeadsTo (fun n => Due q.head.toNat m (Ledger.of q (c.labels n)) (c.state n))
      fun n => c.label n = .consumed ∨ (c.state (n + 1)).thread ≠ (c.state n).thread := by
    intro n hn
    apply hgoes n
    intro hasleep
    have hawake := hn.awake
    rw [hasleep] at hawake
    cases hawake
  refine LeadsTo.of_rank (fun n => rank m (Ledger.of q (c.labels n)) (c.state n)) ?_ ?_ hacts
  · intro n hn
    rcases hnext n hn with hall | ⟨hdue, hle, -⟩
    · exact .inl hall
    · exact .inr ⟨hdue, hle⟩
  · intro n hn hmoves
    rcases hnext n hn with hall | ⟨-, -, hfalls⟩
    · exact .inl hall
    · exact .inr (hfalls hmoves)

end Course

/-- In every endless run in which the kernel thread goes on while it is awake: once a call has
come back, everything that had been published when it began is consumed sooner or later. The
application owes no further call, whatever the two do in between and in which order. -/
theorem consumed_after_call (hpoll : s.params.isSetupSqpoll = true) {q : Inner E}
    (hroom : (q.tail - q.head).toNat ≤ q.slots)
    (hflag : thread.flagUp = true → SubmissionQueue.needWakeup q = true)
    (c : Course (Step s) (⟨⟨q, []⟩, .none, .idle, thread⟩ : State E))
    (hgoes : LeadsTo (fun i => (c.state i).thread ≠ .asleep) fun i =>
      c.label i = .consumed ∨ (c.state (i + 1)).thread ≠ (c.state i).thread) {i j : Nat}
    (hcall : c.label i = .called) (hij : i < j) (hback : (c.state j).pc = .idle) :
    ∃ n ≥ j, (Ledger.of q (c.labels i)).published ≤ (Ledger.of q (c.labels n)).consumed := by
  have hcovers := mark_of_call c hroom hflag hcall hij
  obtain ⟨p, k, hinv, hsettled⟩ := Inv.course c hpoll hroom hflag j
  rw [hback] at hsettled
  obtain ⟨hmark, hdecided⟩ := hsettled
  generalize (Ledger.of q (c.labels i)).published = m at hcovers ⊢
  by_cases hdone : m ≤ (Ledger.of q (c.labels j)).consumed
  · exact ⟨j, Nat.le_refl j, hdone⟩
  have hawake : (c.state j).thread.decided = false := by
    apply Bool.eq_false_iff.mpr
    intro hdec
    exact hdone (hcovers.trans (hdecided hdec))
  have hdue : Due q.head.toNat m (Ledger.of q (c.labels j)) (c.state j) :=
    ⟨⟨p, k, hinv, hcovers.trans hmark⟩, hawake, Nat.lt_of_not_le hdone⟩
  exact due_consumed c m hgoes j hdue

/-- Nothing happens any more while the thread sleeps. -/
def asleepCourse (b : Shared Nat) :
    Course (Step pollingSubmitter) (⟨b, .none, .idle, .asleep⟩ : State Nat) :=
  Course.round (fun _ => (⟨b, .none, .idle, .asleep⟩ : State Nat)) (fun _ => Event.silent) 1
    Nat.one_pos fun _ _ => .otherFlags rfl

/-- `submit` comes back without a syscall; the thread consumes the entry and sleeps for good. -/
def quietCourse :
    Course (Step pollingSubmitter) (⟨⟨wrappingRing, []⟩, .none, .idle, .polling⟩ : State Nat) :=
  have pushed : wrappingRing.borrow.push wrappingRing 7 =
      .ok (wrappingRing.borrow.pushUnchecked wrappingRing 7) := if_pos (by decide +kernel)
  have skipped : pollingSubmitter.finish 1 0 0 (.submitAndWait 0) = .ok 1 := by decide +kernel
  .cons .borrow <| .cons (.push pushed) <| .cons .drop <| .cons (.drain rfl) <|
  .cons (.drain rfl) <| .cons (.call (.submitAndWait 0)) <| .cons .loadHead <| .cons .loadTail <|
  .cons .loadOverflow <| .cons (.fence rfl) <| .cons (.returnOk skipped) <|
  .cons (.consume (if_neg (by decide +kernel))) <| .cons (.findNone (by decide +kernel)) <|
  .cons .raise <| .cons .barrier <| .cons (.recheckEmpty (by decide +kernel)) <|
  .cons .sleep (asleepCourse _)

/-- The entry of the quiet call is consumed in the end. -/
theorem consumed_after_call_quiet :
    quietCourse.label 5 = .called ∧ (quietCourse.state 11).pc = .idle ∧
      (Ledger.of wrappingRing (quietCourse.labels 5)).published = 1 ∧
      ∃ n ≥ 11, (Ledger.of wrappingRing (quietCourse.labels 5)).published ≤
        (Ledger.of wrappingRing (quietCourse.labels n)).consumed := by
  have hgoes : LeadsTo (fun i => (quietCourse.state i).thread ≠ .asleep) fun i =>
      quietCourse.label i = .consumed ∨
        (quietCourse.state (i + 1)).thread ≠ (quietCourse.state i).thread := by
    intro i hawake
    by_cases hi : i ≤ 16
    · exact ⟨16, hi, .inr fun heq => by cases heq⟩
    · obtain ⟨n, rfl⟩ := Nat.exists_eq_add_of_le' (Nat.lt_of_not_le hi)
      exact absurd rfl hawake
  exact ⟨rfl, rfl, by decide +kernel,
    consumed_after_call rfl (by decide +kernel) (fun hup => by cases hup) quietCourse hgoes rfl
      (by decide) rfl⟩

end IoUring.Sqpoll
