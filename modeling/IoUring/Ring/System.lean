import IoUring.Foundation.FlagWord
import IoUring.Squeue.Fifo
import IoUring.Squeue.Entry
import IoUring.Cqueue.Delivery
import IoUring.Cqueue.Entry
import IoUring.Submit.Submitter

/-!
# A whole ring

The application pushes entries, submits and reads completions; the kernel
consumes published entries, completes them in any order, and keeps completions
that find no room in an overflow list. The steps on the two queues are those of
`Squeue` and `Cqueue`; the kernel's steps between them are added here.
-/

namespace IoUring.Ring

open Foundation Submit

variable {E C : Type}

/-- Where the application is in a submit call. -/
inductive Pc where
  | idle
  | called (req : Request)
  | headLoaded (req : Request) (head : UInt32)
  | lenLoaded (req : Request) (len : UInt64)
  | overflowLoaded (req : Request) (len : UInt64) (f1 : UInt32)
  /-- In `io_uring_enter`, with this many entries left to consume. -/
  | submitting (call : EnterCall) (left : Nat)
  /-- In `io_uring_enter`, past the consumption of entries. -/
  | reaping (call : EnterCall)

structure State (E C : Type) where
  sq : Squeue.Inner E
  sqApp : Squeue.App
  cq : Cqueue.Inner C
  cqApp : Cqueue.App
  /-- The user data of the entries consumed and not yet completed. -/
  inFlight : List UInt64
  overflow : List C
  pc : Pc

inductive Event (E C : Type) where
  | sq (event : Squeue.Event E)
  | cq (event : Cqueue.Event C)
  /-- Completions moved from the overflow list to the ring. -/
  | flushed (moved : List C)
  | silent

def raiseOverflow (sq : Squeue.Inner E) : Squeue.Inner E :=
  { sq with flags := sq.flags ||| Sys.ioringSqCqOverflow }

def clearOverflow (sq : Squeue.Inner E) : Squeue.Inner E :=
  { sq with flags := sq.flags &&& ~~~Sys.ioringSqCqOverflow }

theorem sqCqOverflow_raise (sq : Squeue.Inner E) :
    sqCqOverflow (raiseOverflow sq).flags = true := by
  rw [sqCqOverflow, raiseOverflow, or_and_self₃₂]
  decide

theorem sqCqOverflow_clear (sq : Squeue.Inner E) :
    sqCqOverflow (clearOverflow sq).flags = false := by
  rw [sqCqOverflow, clearOverflow, UInt32.and_assoc]
  simp

/-- The kernel moves overflowed completions to the ring while there is room:
the moved ones, the rest, and the ring. -/
def flush (cq : Cqueue.Inner C) : List C → List C × List C × Cqueue.Inner C
  | [] => ([], [], cq)
  | cqe :: rest =>
      match cq.kernelPost cqe with
      | none => ([], cqe :: rest, cq)
      | some cq =>
          let (moved, left, cq) := flush cq rest
          (cqe :: moved, left, cq)

/-- What a flush does with the first completion of the list. -/
theorem flush_cons {cq : Cqueue.Inner C} {cqe : C} {rest moved left : List C}
    {cq' : Cqueue.Inner C} (h : flush cq (cqe :: rest) = (moved, left, cq')) :
    (cq.kernelPost cqe = none ∧ moved = [] ∧ left = cqe :: rest ∧ cq' = cq) ∨
      ∃ cq₁ moved₁, cq.kernelPost cqe = some cq₁ ∧ flush cq₁ rest = (moved₁, left, cq') ∧
        moved = cqe :: moved₁ := by
  cases hpost : cq.kernelPost cqe with
  | none =>
      have hnone : ([], cqe :: rest, cq) = (moved, left, cq') := by simpa [flush, hpost] using h
      cases hnone
      exact .inl ⟨rfl, rfl, rfl, rfl⟩
  | some cq₁ =>
      have hsome : (cqe :: (flush cq₁ rest).1, (flush cq₁ rest).2.1, (flush cq₁ rest).2.2) =
          (moved, left, cq') := by
        simpa [flush, hpost] using h
      cases hsome
      exact .inr ⟨cq₁, _, rfl, rfl, rfl⟩

/-- A flush moves the front of the list, and stops at its end or at a full ring. -/
theorem flush_moves {cq : Cqueue.Inner C} {cqes moved left : List C} {cq' : Cqueue.Inner C}
    (h : flush cq cqes = (moved, left, cq')) :
    moved ++ left = cqes ∧ (left = [] ∨ ¬ cq'.tail - cq'.head < cq'.ringEntries) := by
  induction cqes generalizing cq moved with
  | nil =>
      cases h
      exact ⟨rfl, .inl rfl⟩
  | cons cqe rest ih =>
      obtain ⟨hnone, rfl, rfl, rfl⟩ | ⟨cq₁, moved₁, -, hrest, rfl⟩ := flush_cons h
      · refine ⟨rfl, .inr ?_⟩
        intro hroom
        rw [Cqueue.Inner.kernelPost, if_pos hroom] at hnone
        cases hnone
      · obtain ⟨happend, hstop⟩ := ih hrest
        exact ⟨congrArg (cqe :: ·) happend, hstop⟩

/-- The flag word after a flush: the bit goes down once the list is empty. -/
def afterFlush (sq : Squeue.Inner E) (left : List C) : Squeue.Inner E :=
  if left.isEmpty then clearOverflow sq else sq

variable [Squeue.EntryMarker E] [Cqueue.EntryMarker C]

inductive Step (s : Submitter) : State E C → Event E C → State E C → Prop
  -- the application's handles
  | submission {sq app cq cqApp inFlight overflow pc event sq' app'}
      (h : Squeue.Step ⟨sq, app⟩ event ⟨sq', app'⟩) (happ : ∀ entry, event ≠ .read entry) :
      Step s ⟨sq, app, cq, cqApp, inFlight, overflow, pc⟩ (.sq event)
        ⟨sq', app', cq, cqApp, inFlight, overflow, pc⟩
  | completion {sq sqApp cq app inFlight overflow pc event cq' app'}
      (h : Cqueue.Step ⟨cq, app⟩ event ⟨cq', app'⟩) (happ : ∀ cqe, event ≠ .posted cqe) :
      Step s ⟨sq, sqApp, cq, app, inFlight, overflow, pc⟩ (.cq event)
        ⟨sq, sqApp, cq', app', inFlight, overflow, pc⟩
  -- a submit call up to its decision; the flags word is loaded twice
  | call {sq sqApp cq cqApp inFlight overflow} (req : Request) :
      Step s ⟨sq, sqApp, cq, cqApp, inFlight, overflow, .idle⟩ .silent
        ⟨sq, sqApp, cq, cqApp, inFlight, overflow, .called req⟩
  | loadHead {sq sqApp cq cqApp inFlight overflow req} :
      Step s ⟨sq, sqApp, cq, cqApp, inFlight, overflow, .called req⟩ .silent
        ⟨sq, sqApp, cq, cqApp, inFlight, overflow, .headLoaded req sq.head⟩
  | loadTail {sq sqApp cq cqApp inFlight overflow req head} :
      Step s ⟨sq, sqApp, cq, cqApp, inFlight, overflow, .headLoaded req head⟩ .silent
        ⟨sq, sqApp, cq, cqApp, inFlight, overflow, .lenLoaded req (sqLen head sq.tail)⟩
  | loadOverflow {sq sqApp cq cqApp inFlight overflow req len} :
      Step s ⟨sq, sqApp, cq, cqApp, inFlight, overflow, .lenLoaded req len⟩ .silent
        ⟨sq, sqApp, cq, cqApp, inFlight, overflow, .overflowLoaded req len sq.flags⟩
  | returnOk {sq sqApp cq cqApp inFlight overflow req len f1 res}
      (h : s.finish len f1 sq.flags req = .ok res) :
      Step s ⟨sq, sqApp, cq, cqApp, inFlight, overflow, .overflowLoaded req len f1⟩ .silent
        ⟨sq, sqApp, cq, cqApp, inFlight, overflow, .idle⟩
  | enter {sq sqApp cq cqApp inFlight overflow req len f1 call}
      (h : s.finish len f1 sq.flags req = .enter call) :
      Step s ⟨sq, sqApp, cq, cqApp, inFlight, overflow, .overflowLoaded req len f1⟩ .silent
        ⟨sq, sqApp, cq, cqApp, inFlight, overflow, .submitting call call.toSubmit.toNat⟩
  -- the kernel consumes: inside `io_uring_enter`, or at any time with SQPOLL
  | consume {sq sqApp cq cqApp inFlight overflow call left entry sq'}
      (h : sq.kernelRead = some (entry, sq')) :
      Step s ⟨sq, sqApp, cq, cqApp, inFlight, overflow, .submitting call (left + 1)⟩
        (.sq (.read entry))
        ⟨sq', sqApp, cq, cqApp, inFlight ++ [Squeue.EntryMarker.getUserData entry], overflow,
          .submitting call left⟩
  | poll {sq sqApp cq cqApp inFlight overflow pc entry sq'}
      (hpoll : s.params.isSetupSqpoll = true) (h : sq.kernelRead = some (entry, sq')) :
      Step s ⟨sq, sqApp, cq, cqApp, inFlight, overflow, pc⟩ (.sq (.read entry))
        ⟨sq', sqApp, cq, cqApp, inFlight ++ [Squeue.EntryMarker.getUserData entry], overflow,
          pc⟩
  | submitted {sq sqApp cq cqApp inFlight overflow call left} :
      Step s ⟨sq, sqApp, cq, cqApp, inFlight, overflow, .submitting call left⟩ .silent
        ⟨sq, sqApp, cq, cqApp, inFlight, overflow, .reaping call⟩
  -- `io_uring_enter` moves the overflow list with `GETEVENTS` and not without
  | flush {sq sqApp cq cqApp inFlight overflow call moved left cq'}
      (hflag : call.flag &&& Sys.ioringEnterGetevents ≠ 0)
      (h : flush cq overflow = (moved, left, cq')) :
      Step s ⟨sq, sqApp, cq, cqApp, inFlight, overflow, .reaping call⟩ (.flushed moved)
        ⟨afterFlush sq left, sqApp, cq', cqApp, inFlight, left, .idle⟩
  | leave {sq sqApp cq cqApp inFlight overflow call}
      (hflag : call.flag &&& Sys.ioringEnterGetevents = 0) :
      Step s ⟨sq, sqApp, cq, cqApp, inFlight, overflow, .reaping call⟩ .silent
        ⟨sq, sqApp, cq, cqApp, inFlight, overflow, .idle⟩
  -- the kernel completes any request in flight
  | complete {sq sqApp cq cqApp data after pc cqe cq'} (before : List UInt64)
      (hdata : Cqueue.EntryMarker.userData cqe = data) (h : cq.kernelPost cqe = some cq') :
      Step s ⟨sq, sqApp, cq, cqApp, before ++ data :: after, [], pc⟩ (.cq (.posted cqe))
        ⟨sq, sqApp, cq', cqApp, before ++ after, [], pc⟩
  | completeOverflow {sq sqApp cq cqApp data after overflow pc} (before : List UInt64) (cqe : C)
      (hdata : Cqueue.EntryMarker.userData cqe = data)
      (h : overflow ≠ [] ∨ cq.kernelPost cqe = none) :
      Step s ⟨sq, sqApp, cq, cqApp, before ++ data :: after, overflow, pc⟩ .silent
        ⟨raiseOverflow sq, sqApp, cq, cqApp, before ++ after, overflow ++ [cqe], pc⟩
  -- the kernel changes the other bits of the flags word as it likes
  | otherFlags {sq sqApp cq cqApp inFlight overflow pc flags}
      (h : flags &&& Sys.ioringSqCqOverflow = sq.flags &&& Sys.ioringSqCqOverflow) :
      Step s ⟨sq, sqApp, cq, cqApp, inFlight, overflow, pc⟩ .silent
        ⟨{ sq with flags }, sqApp, cq, cqApp, inFlight, overflow, pc⟩

omit [Squeue.EntryMarker E] [Cqueue.EntryMarker C]

/-- The ledgers of both queues. -/
structure Ledger (E C : Type) where
  sq : Squeue.Ledger E
  cq : Cqueue.Ledger C

namespace Ledger

def start (sq : Squeue.Inner E) (cq : Cqueue.Inner C) : Ledger E C where
  sq := .start sq
  cq := .start cq

def record (l : Ledger E C) : Event E C → Ledger E C
  | .sq event => { l with sq := l.sq.record event }
  | .cq event => { l with cq := l.cq.record event }
  | .flushed moved => { l with cq := l.cq.posts moved }
  | .silent => l

/-- The ledger of a run that starts with these rings. -/
def of (sq : Squeue.Inner E) (cq : Cqueue.Inner C) (events : List (Event E C)) : Ledger E C :=
  ledgerAfter record (start sq cq) events

end Ledger

end IoUring.Ring
