import IoUring.Foundation.FlagWord
import IoUring.Sqpoll.Protocol
import IoUring.Submit.Decision

/-!
# No wake-up is lost

Either the fence of the call drains the tail before the thread reads it again
behind its barrier, and the thread does not go to sleep on an entry that the
call had to cover; or the thread has raised its flag before the call reads it,
and the call enters the kernel. The invariant says so in positions: what a call
without a syscall covered lies below the tail in memory, and a thread that has
decided to sleep has consumed it.
-/

namespace IoUring.Sqpoll

open Foundation Squeue Submit

variable {E : Type*}

section Seen

variable (b : Shared E)

theorem seen_head : (seen b).head = b.mem.head :=
  StoreBuffer.view_keeps (f := Inner.head) Store.apply (fun _ s => by cases s <;> rfl) b

theorem seen_flags : (seen b).flags = b.mem.flags :=
  StoreBuffer.view_keeps (f := Inner.flags) Store.apply (fun _ s => by cases s <;> rfl) b

theorem seen_toRingSize : (seen b).toRingSize = b.mem.toRingSize :=
  StoreBuffer.view_keeps (f := Inner.toRingSize) Store.apply (fun _ s => by cases s <;> rfl) b

end Seen

/-- The buffered tail stores lead in order from position `lo` to position `hi`. -/
def TailsUpTo (base : Nat) : Nat → List (Store E) → Nat → Prop
  | lo, [], hi => lo = hi
  | lo, .sqe _ _ :: rest, hi => TailsUpTo base lo rest hi
  | lo, .tail value :: rest, hi =>
      ∃ p, lo ≤ p ∧ value = .ofNat (base + p) ∧ TailsUpTo base p rest hi

namespace TailsUpTo

variable {base lo hi : Nat} {buf : List (Store E)}

theorem le (h : TailsUpTo base lo buf hi) : lo ≤ hi := by
  induction buf generalizing lo with
  | nil => exact Nat.le_of_eq h
  | cons store rest ih =>
      cases store with
      | sqe slot entry => exact ih h
      | tail value =>
          obtain ⟨p, hle, -, hrest⟩ := h
          exact Nat.le_trans hle (ih hrest)

theorem append_sqe (h : TailsUpTo base lo buf hi) (slot : Nat) (entry : E) :
    TailsUpTo base lo (buf ++ [.sqe slot entry]) hi := by
  induction buf generalizing lo with
  | nil => exact h
  | cons store rest ih =>
      cases store with
      | sqe slot entry => exact ih h
      | tail value =>
          obtain ⟨p, hle, hvalue, hrest⟩ := h
          exact ⟨p, hle, hvalue, ih hrest⟩

theorem append_tail (h : TailsUpTo base lo buf hi) {hi' : Nat} (hle : hi ≤ hi') :
    TailsUpTo base lo (buf ++ [.tail (.ofNat (base + hi'))]) hi' := by
  induction buf generalizing lo with
  | nil =>
      obtain rfl : lo = hi := h
      exact ⟨hi', hle, rfl, rfl⟩
  | cons store rest ih =>
      cases store with
      | sqe slot entry => exact ih h
      | tail value =>
          obtain ⟨p, hp, hvalue, hrest⟩ := h
          exact ⟨p, hp, hvalue, ih hrest⟩

/-- The application sees its last published tail. -/
theorem seen_tail {mem : Inner E} (h : TailsUpTo base lo buf hi)
    (htail : mem.tail = .ofNat (base + lo)) : (seen ⟨mem, buf⟩).tail = .ofNat (base + hi) := by
  induction buf generalizing mem lo with
  | nil =>
      obtain rfl : lo = hi := h
      exact htail
  | cons store rest ih =>
      cases store with
      | sqe slot entry =>
          have hmem : (Store.apply mem (.sqe slot entry)).tail = .ofNat (base + lo) := htail
          exact ih h hmem
      | tail value =>
          obtain ⟨p, -, hvalue, hrest⟩ := h
          have hmem : (Store.apply mem (.tail value)).tail = .ofNat (base + p) := hvalue
          exact ih hrest hmem

end TailsUpTo

/-- Behind the fence of a call. -/
def Pc.pastFence : Pc → Bool
  | .fenced _ _ _ | .askFenced => true
  | _ => false

/-- The thread has raised `NEED_WAKEUP` and not taken it back. -/
def Thread.flagUp : Thread → Bool
  | .polling | .foundNone => false
  | .flagged | .fenced | .retiring | .clearing | .asleep => true

/-- The thread has found the ring empty behind its barrier. -/
def Thread.decided : Thread → Bool
  | .retiring | .asleep => true
  | .polling | .foundNone | .flagged | .fenced | .clearing => false

theorem Thread.flagUp_of_decided {thread : Thread} (h : thread.decided = true) :
    thread.flagUp = true := by
  cases thread <;> first | rfl | cases h

/-- The handle's counters stand for positions `c` and `t`. -/
def Tracks (base : Nat) (l : Ledger) (c : Nat) : App → Prop
  | .none => l.unpublished = 0
  | .ready sq | .syncing sq =>
      sq.head = .ofNat (base + c) ∧ sq.tail = .ofNat (base + (l.published + l.unpublished))

/-- `base` is the position of the head at the start, `c` that of the head the
handle loaded last, and `k` that of the tail in memory. -/
structure Inv (base : Nat) (l : Ledger) (c k : Nat) (b : Shared E) (app : App) (pc : Pc)
    (thread : Thread) : Prop where
  head_eq : b.mem.head = .ofNat (base + l.consumed)
  tail_eq : b.mem.tail = .ofNat (base + k)
  tails : TailsUpTo base k b.buf l.published
  cached_le : c ≤ l.consumed
  consumed_le : l.consumed ≤ k
  room : l.published + l.unpublished ≤ c + b.mem.slots
  app : Tracks base l c app
  mark_le : l.mark ≤ l.published
  fenced : pc.pastFence = true → l.mark ≤ k
  quiet_le : l.quiet ≤ k
  flag : thread.flagUp = true → SubmissionQueue.needWakeup b.mem = true
  decided : thread.decided = true → l.quiet ≤ l.consumed

namespace Inv

variable {base c k : Nat} {l : Ledger} {b b' : Shared E} {app : App} {pc pc' : Pc}
  {thread thread' : Thread} {sq sq' : SubmissionQueue}

/-- The ring in memory is empty only if everything the tail covers is consumed. -/
theorem empty_iff (h : Inv base l c k b app pc thread) :
    b.mem.head = b.mem.tail ↔ k = l.consumed := by
  have hslots := b.mem.slots_le
  have hcached := h.cached_le
  have hconsumed := h.consumed_le
  have htails := h.tails.le
  have hroom := h.room
  rw [h.head_eq, h.tail_eq, eq_comm,
    ofNat_eq_ofNat_iff (show base + l.consumed ≤ base + k by omega) (by omega)]
  omega

/-- A step inside a call that crosses no fence. -/
theorem move (h : Inv base l c k b app pc thread) (hpc : pc'.pastFence = false) :
    Inv base l c k b app pc' thread :=
  { h with fenced := fun hpast => by rw [hpc] at hpast; cases hpast }

/-- The fence of a call: what was published when the call began is in memory. -/
theorem fence (h : Inv base l c k b app pc thread) (hdrained : b.buf = []) :
    Inv base l c k b app pc' thread := by
  have htails := h.tails
  rw [hdrained] at htails
  exact { h with fenced := fun _ => htails ▸ h.mark_le }

/-- The call reads the flag behind its fence, finds it down, and returns. -/
theorem quiet (h : Inv base l c k b app pc thread) (hpast : pc.pastFence = true)
    (hdown : SubmissionQueue.needWakeup b.mem = false) :
    Inv base (l.record .quiet) c k b app .idle thread where
  head_eq := h.head_eq
  tail_eq := h.tail_eq
  tails := h.tails
  cached_le := h.cached_le
  consumed_le := h.consumed_le
  room := h.room
  app := by
    have happ := h.app
    cases app <;> exact happ
  mark_le := h.mark_le
  fenced := fun hidle => by cases hidle
  quiet_le := h.fenced hpast
  flag := h.flag
  decided := fun hdecided => by
    have hup := h.flag (Thread.flagUp_of_decided hdecided)
    rw [hdown] at hup
    cases hup

/-- A call begins. -/
theorem call (h : Inv base l c k b app pc thread) (hpc : pc'.pastFence = false) :
    Inv base (l.record .called) c k b app pc' thread :=
  { h with
    app := by
      have happ := h.app
      cases app <;> exact happ
    mark_le := Nat.le_refl _
    fenced := fun hpast => by rw [hpc] at hpast; cases hpast }

theorem push (h : Inv base l c k b (.ready sq) pc thread) {entry : E} {q' : Inner E}
    (heq : sq.push (seen b) entry = .ok (sq', q')) :
    Inv base (l.record .pushed) c k (b.store (.sqe ((seen b).slotOf sq.tail) entry))
      (.ready sq') pc thread := by
  obtain ⟨hlen, hpair⟩ := SubmissionQueue.of_push heq
  obtain ⟨rfl, -⟩ := Prod.mk.inj hpair
  have hcached := h.cached_le
  have hconsumed := h.consumed_le
  have htails := h.tails.le
  have hroom := h.room
  have hslots := b.mem.slots_le
  have hsize : (seen b).slots = b.mem.slots := congrArg RingSize.slots (seen_toRingSize b)
  rw [SubmissionQueue.len_of_positions h.app.1 h.app.2 (by omega) (by omega), hsize] at hlen
  exact { h with
    tails := h.tails.append_sqe _ _
    room := by
      simp only [Ledger.record]
      change _ ≤ c + b.mem.slots
      omega
    app := ⟨h.app.1, by
      simp [Ledger.record, h.app.2, ← Nat.add_assoc]⟩ }

/-- The release store of the tail enters the buffer. -/
theorem publish (h : Inv base l c k b (.ready sq) pc thread) :
    Inv base (l.record .published) c k (b.store (.tail sq.tail)) (.syncing sq) pc thread where
  head_eq := h.head_eq
  tail_eq := h.tail_eq
  tails := by
    rw [h.app.2]
    exact h.tails.append_tail (Nat.le_add_right _ _)
  cached_le := h.cached_le
  consumed_le := h.consumed_le
  room := h.room
  app := h.app
  mark_le := Nat.le_trans h.mark_le (Nat.le_add_right _ _)
  fenced := h.fenced
  quiet_le := h.quiet_le
  flag := h.flag
  decided := h.decided

/-- A handle that loads the head again: what was consumed is room again. -/
theorem reload (h : Inv base l c k b app pc thread) {app' : App}
    (happ : Tracks base l l.consumed app') :
    Inv base l l.consumed k b app' pc thread :=
  { h with
    cached_le := Nat.le_refl _
    room := Nat.le_trans h.room (Nat.add_le_add_right h.cached_le _)
    app := happ }

/-- A store reaches memory: the tail there moves on or stays. -/
theorem drain (h : Inv base l c k b app pc thread) (heq : b.drain Store.apply = some b') :
    ∃ k', Inv base l c k' b' app pc thread := by
  obtain ⟨mem, buf⟩ := b
  cases buf with
  | nil => cases heq
  | cons store rest =>
      obtain rfl := Option.some.inj heq
      cases store with
      | sqe slot entry => exact ⟨k, { h with tails := h.tails }⟩
      | tail value =>
          obtain ⟨p, hle, hvalue, hrest⟩ := h.tails
          exact ⟨p, { h with
            tail_eq := hvalue
            tails := hrest
            consumed_le := Nat.le_trans h.consumed_le hle
            fenced := fun hpast => Nat.le_trans (h.fenced hpast) hle
            quiet_le := Nat.le_trans h.quiet_le hle }⟩

/-- The kernel thread consumes below the tail in memory. -/
theorem consume (h : Inv base l c k b app pc .polling) {entry : E} {q' : Inner E}
    (heq : b.mem.kernelRead = some (entry, q')) :
    Inv base (l.record .consumed) c k { b with mem := q' } app pc .polling := by
  unfold Inner.kernelRead at heq
  split at heq
  · cases heq
  · rename_i hne
    obtain ⟨-, rfl⟩ := Prod.mk.inj (Option.some.inj heq)
    have hlt : l.consumed < k :=
      Nat.lt_of_le_of_ne h.consumed_le fun hend => hne (h.empty_iff.mpr hend.symm)
    exact { h with
      head_eq := by simp [Ledger.record, h.head_eq, ← Nat.add_assoc]
      cached_le := Nat.le_trans h.cached_le (Nat.le_succ _)
      consumed_le := hlt
      app := by
        have happ := h.app
        cases app <;> exact happ
      decided := fun hdecided => by cases hdecided }

/-- The flags word changes and the thread moves, not into a decision to sleep. -/
theorem setFlags (h : Inv base l c k b app pc thread) {flags : UInt32}
    (hflag : thread'.flagUp = true → flags &&& Sys.ioringSqNeedWakeup ≠ 0)
    (hdecided : thread'.decided = true → thread.decided = true) :
    Inv base l c k (Sqpoll.setFlags b flags) app pc thread' :=
  { h with
    flag := fun hup => bne_iff_ne.mpr (hflag hup)
    decided := fun hdec => h.decided (hdecided hdec) }

/-- The thread moves and the flags word stays. -/
theorem turn (h : Inv base l c k b app pc thread)
    (hflag : thread'.flagUp = true → thread.flagUp = true)
    (hdecided : thread'.decided = true → l.quiet ≤ l.consumed) :
    Inv base l c k b app pc thread' :=
  { h with
    flag := fun hup => h.flag (hflag hup)
    decided := hdecided }

/-- Only a flag that is down lets a submit call return without a syscall. -/
theorem finish_ok {s : Submitter} {len res : UInt64} {f1 f2 : UInt32} {req : Request}
    (h : s.finish len f1 f2 req = .ok res) : sqNeedWakeup f2 = false := by
  rw [s.finish_eq] at h
  split at h
  · rename_i hskips
    exact ((s.skips_iff req.want f1 f2).mp hskips).2.1
  · cases h

/-- The step lemma: every step of either party carries the invariant over. -/
theorem step {s : Submitter} {σ σ' : State E} {event : Event}
    (h : Inv base l c k σ.shared σ.app σ.pc σ.thread) (hstep : Step s σ event σ') :
    ∃ c' k', Inv base (l.record event) c' k' σ'.shared σ'.app σ'.pc σ'.thread := by
  cases hstep with
  | @borrow b =>
      have hun : l.unpublished = 0 := h.app
      refine ⟨_, k, h.reload ⟨(seen_head b).trans h.head_eq, ?_⟩⟩
      rw [hun]
      exact h.tails.seen_tail h.tail_eq
  | push heq => exact ⟨c, k, h.push heq⟩
  | pushError => exact ⟨c, k, h⟩
  | syncStore => exact ⟨c, k, h.publish⟩
  | @syncLoad b => exact ⟨_, k, h.reload ⟨(seen_head b).trans h.head_eq, h.app.2⟩⟩
  | drop => exact ⟨c, k, { h.publish with app := rfl }⟩
  | drain heq =>
      obtain ⟨k', hdrain⟩ := h.drain heq
      exact ⟨c, k', hdrain⟩
  | call => exact ⟨c, k, h.call rfl⟩
  | loadHead => exact ⟨c, k, h.move rfl⟩
  | loadTail => exact ⟨c, k, h.move rfl⟩
  | loadOverflow => exact ⟨c, k, h.move rfl⟩
  | fence hdrained => exact ⟨c, k, h.fence hdrained⟩
  | @returnOk b _ _ _ _ _ _ heq =>
      have hdown := finish_ok heq
      rw [seen_flags] at hdown
      exact ⟨c, k, h.quiet rfl hdown⟩
  | enter => exact ⟨c, k, h.move rfl⟩
  | ask => exact ⟨c, k, h.call rfl⟩
  | askFence hdrained => exact ⟨c, k, h.fence hdrained⟩
  | @askFalse b _ _ hdown =>
      rw [SubmissionQueue.needWakeup, seen_flags] at hdown
      exact ⟨c, k, h.quiet rfl hdown⟩
  | askTrue => exact ⟨c, k, h.move rfl⟩
  | wake =>
      exact ⟨c, k, (h.move rfl).setFlags (fun hup => by cases hup) (fun hdec => by cases hdec)⟩
  | noWake => exact ⟨c, k, h.move rfl⟩
  | consume heq => exact ⟨c, k, h.consume heq⟩
  | findNone => exact ⟨c, k, h.turn (fun hup => by cases hup) (fun hdec => by cases hdec)⟩
  | raise =>
      refine ⟨c, k, h.setFlags (fun _ => ?_) (fun hdec => by cases hdec)⟩
      rw [or_and_self₃₂]
      decide
  | barrier => exact ⟨c, k, h.turn (fun _ => rfl) (fun hdec => by cases hdec)⟩
  | recheckEmpty hempty =>
      -- behind the barrier the thread sees every tail that a quiet call relied on
      have hend := h.empty_iff.mp hempty
      exact ⟨c, k, h.turn (fun _ => rfl) (fun _ => hend ▸ h.quiet_le)⟩
  | recheckFound => exact ⟨c, k, h.turn (fun _ => rfl) (fun hdec => by cases hdec)⟩
  | clear => exact ⟨c, k, h.setFlags (fun hup => by cases hup) (fun hdec => by cases hdec)⟩
  | sleep => exact ⟨c, k, h.turn (fun _ => rfl) (fun _ => h.decided rfl)⟩
  | @otherFlags b _ _ thread flags hkeep =>
      refine ⟨c, k, h.setFlags (fun hup => ?_) (fun hdec => hdec)⟩
      rw [hkeep]
      exact bne_iff_ne.mp (h.flag hup)

theorem start (q : Inner E) (hroom : (q.tail - q.head).toNat ≤ q.slots)
    (hflag : thread.flagUp = true → SubmissionQueue.needWakeup q = true) :
    Inv q.head.toNat (Ledger.start q) 0 (q.tail - q.head).toNat ⟨q, []⟩ .none .idle thread where
  head_eq := by simp [Ledger.start]
  tail_eq := (ofNat_toNat_add_sub q.head q.tail).symm
  tails := rfl
  cached_le := Nat.le_refl _
  consumed_le := Nat.zero_le _
  room := by simpa [Ledger.start] using hroom
  app := rfl
  mark_le := Nat.zero_le _
  fenced := fun hidle => by cases hidle
  quiet_le := Nat.zero_le _
  flag := hflag
  decided := fun _ => Nat.le_refl _

/-- The run lemma: the invariant holds after every interleaving. -/
theorem run {s : Submitter} {q : Inner E} (hroom : (q.tail - q.head).toNat ≤ q.slots)
    (hflag : thread.flagUp = true → SubmissionQueue.needWakeup q = true)
    {events : List Event} {σ : State E}
    (run : Run (Step s) ⟨⟨q, []⟩, .none, .idle, thread⟩ events σ) :
    ∃ c k, Inv q.head.toNat (Ledger.of q events) c k σ.shared σ.app σ.pc σ.thread :=
  Run.invariant (r := Ledger.record) (g := Ledger.start q)
    (I := fun l (σ : State E) => ∃ c k, Inv q.head.toNat l c k σ.shared σ.app σ.pc σ.thread)
    (fun _ _ _ _ ⟨_, _, hinv⟩ hstep => hinv.step hstep)
    ⟨0, _, start q hroom hflag⟩ run

end Inv

/-- Over every interleaving: while the kernel thread sleeps, everything is
consumed that had been published before a call that came back without a syscall. -/
theorem no_lost_wakeup {s : Submitter} {q : Inner E}
    (hroom : (q.tail - q.head).toNat ≤ q.slots) {thread : Thread}
    (hflag : thread.flagUp = true → SubmissionQueue.needWakeup q = true)
    {events : List Event} {σ : State E}
    (run : Run (Step s) ⟨⟨q, []⟩, .none, .idle, thread⟩ events σ)
    (hasleep : σ.thread = .asleep) :
    (Ledger.of q events).quiet ≤ (Ledger.of q events).consumed := by
  obtain ⟨c, k, h⟩ := Inv.run hroom hflag run
  apply h.decided
  rw [hasleep]
  rfl

/-- A submitter of a ring with a polling thread. -/
def pollingSubmitter : Submitter where
  fd := 3
  params := { Parameters.zeroed with flags := Sys.ioringSetupSqpoll }

/-- A `submit` comes back without a syscall for an entry that the thread
consumes afterwards, before it goes to sleep. -/
theorem no_lost_wakeup_quiet :
    ∃ events σ,
      Run (Step pollingSubmitter) ⟨⟨wrappingRing, []⟩, .none, .idle, .polling⟩ events σ ∧
      σ.thread = .asleep ∧
      (Ledger.of wrappingRing events).quiet = 1 ∧
      (Ledger.of wrappingRing events).quiet ≤ (Ledger.of wrappingRing events).consumed := by
  have pushed : wrappingRing.borrow.push wrappingRing 7 =
      .ok (wrappingRing.borrow.pushUnchecked wrappingRing 7) := if_pos (by decide +kernel)
  have skipped : pollingSubmitter.finish 1 0 0 (.submitAndWait 0) = .ok 1 := by decide +kernel
  have run : Run (Step pollingSubmitter) ⟨⟨wrappingRing, []⟩, .none, .idle, .polling⟩ [] _ :=
    .start
  have run := (((run.next .borrow).next (.push pushed)).next .drop).next (.drain rfl)
  have run := (run.next (.drain rfl)).next (.call (.submitAndWait 0))
  have run := ((run.next .loadHead).next .loadTail).next .loadOverflow
  have run := (run.next (.fence rfl)).next (.returnOk skipped)
  have run := run.next (.consume (if_neg (by decide +kernel)))
  have run := run.next (.findNone (by decide +kernel))
  have run := ((run.next .raise).next .barrier).next (.recheckEmpty (by decide +kernel))
  have run := run.next .sleep
  exact ⟨_, _, run, rfl, by decide +kernel,
    no_lost_wakeup (by decide +kernel) (fun hup => by cases hup) run rfl⟩

end IoUring.Sqpoll
