import IoUring.Foundation.StoreBuffer
import IoUring.Squeue.Fifo
import IoUring.Submit.Submitter

/-!
# Submission to a polling kernel thread

With `IORING_SETUP_SQPOLL` a kernel thread consumes published entries until it
finds none; it then raises `NEED_WAKEUP`, executes a full barrier, reads the
tail once more and sleeps if the ring is still empty. The application publishes
its tail, executes a fence and reads the flag. Its stores go through a store
buffer, so without the fence both sides could miss each other.

The application's calls are taken apart into their loads, fences and the final
decision; any step of the kernel thread may fall between them.
-/

namespace IoUring.Sqpoll

open Foundation Squeue Submit

variable {E : Type*}

/-- A store of the application to the submission ring. -/
inductive Store (E : Type*) where
  | sqe (slot : Nat) (entry : E)
  | tail (value : UInt32)

def Store.apply (q : Inner E) : Store E → Inner E
  | .sqe slot entry => { q with sqes := Function.update q.sqes slot entry }
  | .tail value => { q with tail := value }

/-- The ring behind the application's store buffer. -/
abbrev Shared (E : Type*) := StoreBuffer (Inner E) (Store E)

/-- The ring as the application sees it. -/
def seen (b : Shared E) : Inner E := b.view Store.apply

/-- The stores are those of the queue's operations. -/
theorem seen_pushUnchecked (b : Shared E) (sq : SubmissionQueue) (entry : E) :
    seen (b.store (.sqe ((seen b).slotOf sq.tail) entry)) =
      (sq.pushUnchecked (seen b) entry).2 := by
  rw [seen, StoreBuffer.view_store]
  rfl

theorem seen_storeTail (b : Shared E) (sq : SubmissionQueue) :
    seen (b.store (.tail sq.tail)) = sq.storeTail (seen b) := by
  rw [seen, StoreBuffer.view_store]
  rfl

/-- Another party's write to the head or the flags does not show in tail and entries. -/
theorem seen_congr {mem mem' : Inner E} {buf : List (Store E)} (htail : mem'.tail = mem.tail)
    (hsqes : mem'.sqes = mem.sqes) :
    (seen ⟨mem', buf⟩).tail = (seen ⟨mem, buf⟩).tail ∧
      (seen ⟨mem', buf⟩).sqes = (seen ⟨mem, buf⟩).sqes := by
  induction buf generalizing mem mem' with
  | nil => exact ⟨htail, hsqes⟩
  | cons store rest ih =>
      cases store with
      | sqe slot entry => exact ih htail (congrArg (Function.update · slot entry) hsqes)
      | tail value => exact ih rfl hsqes

/-- Where the application is in a call. -/
inductive Pc where
  | idle
  | called (req : Request)
  | headLoaded (req : Request) (head : UInt32)
  | lenLoaded (req : Request) (len : UInt64)
  | overflowLoaded (req : Request) (len : UInt64) (f1 : UInt32)
  | fenced (req : Request) (len : UInt64) (f1 : UInt32)
  /-- In `need_wakeup`, before and behind its fence. -/
  | asking
  | askFenced
  | entering (call : EnterCall)

/-- Where the kernel thread is. -/
inductive Thread where
  | polling
  | foundNone
  | flagged
  | fenced
  /-- It has seen the empty ring behind the barrier and is going to sleep. -/
  | retiring
  | clearing
  | asleep

structure State (E : Type*) where
  shared : Shared E
  app : App
  pc : Pc
  thread : Thread

inductive Event where
  | silent
  | pushed
  | published
  | called
  /-- A submit call returned `Ok` without a syscall, or `need_wakeup` returned `false`. -/
  | quiet
  | consumed

/-- Another party's atomic write to the flags word. -/
def setFlags (b : Shared E) (flags : UInt32) : Shared E :=
  { b with mem := { b.mem with flags } }

def raise (b : Shared E) : Shared E := setFlags b (b.mem.flags ||| Sys.ioringSqNeedWakeup)

def clear (b : Shared E) : Shared E := setFlags b (b.mem.flags &&& ~~~Sys.ioringSqNeedWakeup)

/-- The steps of one ring with `IORING_SETUP_SQPOLL`, so that every call takes its fence. -/
inductive Step (s : Submitter) : State E → Event → State E → Prop
  | borrow {b thread} :
      Step s ⟨b, .none, .idle, thread⟩ .silent ⟨b, .ready (seen b).borrow, .idle, thread⟩
  | push {b sq thread entry sq' q'} (h : sq.push (seen b) entry = .ok (sq', q')) :
      Step s ⟨b, .ready sq, .idle, thread⟩ .pushed
        ⟨b.store (.sqe ((seen b).slotOf sq.tail) entry), .ready sq', .idle, thread⟩
  | pushError {b sq thread entry err} (h : sq.push (seen b) entry = .error err) :
      Step s ⟨b, .ready sq, .idle, thread⟩ .silent ⟨b, .ready sq, .idle, thread⟩
  | syncStore {b sq thread} :
      Step s ⟨b, .ready sq, .idle, thread⟩ .published
        ⟨b.store (.tail sq.tail), .syncing sq, .idle, thread⟩
  | syncLoad {b sq thread} :
      Step s ⟨b, .syncing sq, .idle, thread⟩ .silent
        ⟨b, .ready (sq.loadHead (seen b)), .idle, thread⟩
  | drop {b sq thread} :
      Step s ⟨b, .ready sq, .idle, thread⟩ .published
        ⟨b.store (.tail sq.tail), .none, .idle, thread⟩
  -- the store buffer drains at any time
  | drain {b b' app pc thread} (h : b.drain Store.apply = some b') :
      Step s ⟨b, app, pc, thread⟩ .silent ⟨b', app, pc, thread⟩
  -- `submit_and_wait` and `submit_with_args`
  | call {b app thread} (req : Request) :
      Step s ⟨b, app, .idle, thread⟩ .called ⟨b, app, .called req, thread⟩
  | loadHead {b app thread req} :
      Step s ⟨b, app, .called req, thread⟩ .silent
        ⟨b, app, .headLoaded req (seen b).head, thread⟩
  | loadTail {b app thread req head} :
      Step s ⟨b, app, .headLoaded req head, thread⟩ .silent
        ⟨b, app, .lenLoaded req (sqLen head (seen b).tail), thread⟩
  | loadOverflow {b app thread req len} :
      Step s ⟨b, app, .lenLoaded req len, thread⟩ .silent
        ⟨b, app, .overflowLoaded req len (seen b).flags, thread⟩
  | fence {b app thread req len f1} (hdrained : b.buf = []) :
      Step s ⟨b, app, .overflowLoaded req len f1, thread⟩ .silent
        ⟨b, app, .fenced req len f1, thread⟩
  | returnOk {b app thread req len f1 res}
      (h : s.finish len f1 (seen b).flags req = .ok res) :
      Step s ⟨b, app, .fenced req len f1, thread⟩ .quiet ⟨b, app, .idle, thread⟩
  | enter {b app thread req len f1 call}
      (h : s.finish len f1 (seen b).flags req = .enter call) :
      Step s ⟨b, app, .fenced req len f1, thread⟩ .silent ⟨b, app, .entering call, thread⟩
  -- `need_wakeup`, and the wake-up its caller owes
  | ask {b sq thread} :
      Step s ⟨b, .ready sq, .idle, thread⟩ .called ⟨b, .ready sq, .asking, thread⟩
  | askFence {b app thread} (hdrained : b.buf = []) :
      Step s ⟨b, app, .asking, thread⟩ .silent ⟨b, app, .askFenced, thread⟩
  | askFalse {b app thread} (h : SubmissionQueue.needWakeup (seen b) = false) :
      Step s ⟨b, app, .askFenced, thread⟩ .quiet ⟨b, app, .idle, thread⟩
  | askTrue {b app thread call} (h : SubmissionQueue.needWakeup (seen b) = true)
      (hflag : call.flag &&& Sys.ioringEnterSqWakeup ≠ 0) :
      Step s ⟨b, app, .askFenced, thread⟩ .silent ⟨b, app, .entering call, thread⟩
  -- `io_uring_enter`
  | wake {b app thread call} (hflag : call.flag &&& Sys.ioringEnterSqWakeup ≠ 0) :
      Step s ⟨b, app, .entering call, thread⟩ .silent ⟨clear b, app, .idle, .polling⟩
  | noWake {b app thread call} (hflag : call.flag &&& Sys.ioringEnterSqWakeup = 0) :
      Step s ⟨b, app, .entering call, thread⟩ .silent ⟨b, app, .idle, thread⟩
  -- the kernel thread
  | consume {b app pc entry q'} (h : b.mem.kernelRead = some (entry, q')) :
      Step s ⟨b, app, pc, .polling⟩ .consumed ⟨{ b with mem := q' }, app, pc, .polling⟩
  | findNone {b app pc} (h : b.mem.head = b.mem.tail) :
      Step s ⟨b, app, pc, .polling⟩ .silent ⟨b, app, pc, .foundNone⟩
  | raise {b app pc} :
      Step s ⟨b, app, pc, .foundNone⟩ .silent ⟨raise b, app, pc, .flagged⟩
  | barrier {b app pc} :
      Step s ⟨b, app, pc, .flagged⟩ .silent ⟨b, app, pc, .fenced⟩
  | recheckEmpty {b app pc} (h : b.mem.head = b.mem.tail) :
      Step s ⟨b, app, pc, .fenced⟩ .silent ⟨b, app, pc, .retiring⟩
  | recheckFound {b app pc} (h : b.mem.head ≠ b.mem.tail) :
      Step s ⟨b, app, pc, .fenced⟩ .silent ⟨b, app, pc, .clearing⟩
  | clear {b app pc} :
      Step s ⟨b, app, pc, .clearing⟩ .silent ⟨clear b, app, pc, .polling⟩
  | sleep {b app pc} :
      Step s ⟨b, app, pc, .retiring⟩ .silent ⟨b, app, pc, .asleep⟩
  -- the kernel changes the other bits of the flags word as it likes
  | otherFlags {b app pc thread flags}
      (h : flags &&& Sys.ioringSqNeedWakeup = b.mem.flags &&& Sys.ioringSqNeedWakeup) :
      Step s ⟨b, app, pc, thread⟩ .silent ⟨setFlags b flags, app, pc, thread⟩

/-- The application works on the queue as it sees it: every step is one of that queue, or
leaves its handle and the tail and the entries it sees as they are. -/
theorem Step.seen_queue {s : Submitter} {σ σ' : State E} {event : Event}
    (h : Step s σ event σ') :
    (∃ shown, Squeue.Step ⟨seen σ.shared, σ.app⟩ shown ⟨seen σ'.shared, σ'.app⟩) ∨
      σ'.app = σ.app ∧ (seen σ'.shared).tail = (seen σ.shared).tail ∧
        (seen σ'.shared).sqes = (seen σ.shared).sqes := by
  cases h with
  | borrow => exact .inl ⟨_, .borrow⟩
  | @push b sq _ entry sq' q' heq =>
      have hq : seen (b.store (.sqe ((seen b).slotOf sq.tail) entry)) = q' := by
        rw [seen_pushUnchecked, (SubmissionQueue.of_push heq).2]
      rw [hq]
      exact .inl ⟨_, .push heq⟩
  | pushError heq => exact .inl ⟨_, .pushError heq⟩
  | syncStore =>
      rw [seen_storeTail]
      exact .inl ⟨_, .syncStore⟩
  | syncLoad => exact .inl ⟨_, .syncLoad⟩
  | drop =>
      rw [seen_storeTail]
      exact .inl ⟨_, .drop⟩
  | @drain b b' _ _ _ heq =>
      have hseen : seen b' = seen b := StoreBuffer.view_drain Store.apply heq
      rw [hseen]
      exact .inr ⟨rfl, rfl, rfl⟩
  | consume heq =>
      unfold Inner.kernelRead at heq
      split at heq
      · cases heq
      · obtain ⟨-, rfl⟩ := Prod.mk.inj (Option.some.inj heq)
        exact .inr ⟨rfl, seen_congr rfl rfl⟩
  | wake | raise | clear | otherFlags => exact .inr ⟨rfl, seen_congr rfl rfl⟩
  | _ => exact .inr ⟨rfl, rfl, rfl⟩

/-- How many entries have been published, pushed since, and consumed; how many
had been published when the current call began (`mark`), and when the last call
began that came back without a syscall (`quiet`). -/
structure Ledger where
  published : Nat
  unpublished : Nat
  consumed : Nat
  mark : Nat
  quiet : Nat

namespace Ledger

def start (q : Inner E) : Ledger where
  published := (q.tail - q.head).toNat
  unpublished := 0
  consumed := 0
  mark := 0
  quiet := 0

def record (l : Ledger) : Event → Ledger
  | .silent => l
  | .pushed => { l with unpublished := l.unpublished + 1 }
  | .published => { l with published := l.published + l.unpublished, unpublished := 0 }
  | .called => { l with mark := l.published }
  | .quiet => { l with quiet := l.mark }
  | .consumed => { l with consumed := l.consumed + 1 }

/-- The ledger of a run that starts at `q`. -/
def of (q : Inner E) (events : List Event) : Ledger :=
  ledgerAfter record (start q) events

end Ledger

end IoUring.Sqpoll
