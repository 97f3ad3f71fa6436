import IoUring.Ring.System
import IoUring.TcpEcho.Echo

/-!
# The server on its ring

`main` step by step: it waits for completions, cleans its backlog, makes accept
requests and serves the completions it has seen. The ring is set up without
SQPOLL, so the kernel consumes entries only inside `io_uring_enter`, while it
answers requests at any time.
-/

namespace IoUring.TcpEcho

open Foundation Opcode Submit

/-- Where `main` is. Inside `io_uring_enter`, so many entries are left to consume. -/
inductive Pc where
  /-- Before the first `push_to`. -/
  | setup
  | wait
  | waiting (call : EnterCall) (left : Nat)
  /-- Before the store and before the load of `cq.sync`. -/
  | cqStore
  | cqLoad
  /-- In the loop that cleans the backlog. -/
  | clean
  | submitting (call : EnterCall) (left : Nat)
  | cleanSync
  | accept
  | serve
  /-- `main` has returned an error. -/
  | exited
  deriving DecidableEq

namespace Pc

def call : Pc → Option EnterCall
  | .waiting call _ | .submitting call _ => some call
  | _ => none

/-- The kernel may consume one more entry. -/
def consume : Pc → Option Pc
  | .waiting call (left + 1) => some (.waiting call left)
  | .submitting call (left + 1) => some (.submitting call left)
  | _ => none

/-- The handle of the completion queue. -/
def handle (cq : Cqueue.CompletionQueue) : Pc → Cqueue.App
  | .cqLoad => .syncing cq
  | _ => .ready cq

end Pc

structure State where
  queue : Squeue.Inner Squeue.Entry
  sq : Squeue.SubmissionQueue
  ring : Cqueue.Inner Cqueue.Entry
  cq : Cqueue.CompletionQueue
  /-- The requests that the kernel has consumed and not answered. -/
  working : List Squeue.Entry
  /-- The completions that found no room in the ring. -/
  overflow : List Cqueue.Entry
  backlog : List Squeue.Entry
  tables : Tables
  net : Net
  pc : Pc

/-- The push that ends an arm, or the backlog if the queue is full. -/
def pushOrQueue (sq : Squeue.SubmissionQueue) (q : Squeue.Inner Squeue.Entry)
    (backlog : List Squeue.Entry) :
    Option Squeue.Entry →
      Squeue.SubmissionQueue × Squeue.Inner Squeue.Entry × List Squeue.Entry
  | none => (sq, q, backlog)
  | some entry =>
      match sq.push q entry with
      | .ok (sq, q) => (sq, q, backlog)
      | .error _ => (sq, q, backlog ++ [entry])

/-- A step with what is seen of it. -/
inductive Label where
  | seen (event : Event)
  /-- A wait, or a submission from the backlog, has ended with entries left to consume. -/
  | waited (left : Nat)
  | submitted (left : Nat)
  /-- A submission from the backlog has ended with EBUSY. -/
  | busy (left : Nat)
  | served (cqe : Cqueue.Entry) (reply : Reply)

def Label.event : Label → Event
  | .seen event => event
  | .waited _ | .submitted _ | .busy _ => .quiet
  | .served cqe reply => reply.event cqe

inductive Step (s : Submitter) (σ : State) : Label → State → Prop
  | setup {accept sq queue} (hpc : σ.pc = .setup)
      (h : σ.tables.accept.pushTo σ.sq σ.queue = (accept, sq, queue)) :
      Step s σ (.seen .quiet)
        { σ with tables := { σ.tables with accept }, sq, queue, pc := .wait }
  -- `submit_and_wait(1)`; an error other than EBUSY ends the program, here and below
  | wait {call} (hpc : σ.pc = .wait)
      (h : s.submitAndWait 1 (sqLen σ.queue.head σ.queue.tail) σ.queue.flags σ.queue.flags =
        .enter call) :
      Step s σ (.seen .quiet) { σ with pc := .waiting call call.toSubmit.toNat }
  | waited {call left} (hpc : σ.pc = .waiting call left) :
      Step s σ (.waited left) { σ with pc := .cqStore }
  | exit {call} (hpc : σ.pc.call = some call) : Step s σ (.seen .quiet) { σ with pc := .exited }
  -- `cq.sync()`
  | cqStore (hpc : σ.pc = .cqStore) :
      Step s σ (.seen .quiet) { σ with ring := σ.cq.storeHead σ.ring, pc := .cqLoad }
  | cqLoad (hpc : σ.pc = .cqLoad) :
      Step s σ (.seen .quiet) { σ with cq := σ.cq.loadTail σ.ring, pc := .clean }
  -- the backlog; EBUSY leaves the loop
  | cleanFull {call} (hpc : σ.pc = .clean) (hfull : σ.sq.isFull σ.queue = true)
      (h : s.submit (sqLen σ.queue.head σ.queue.tail) σ.queue.flags σ.queue.flags =
        .enter call) :
      Step s σ (.seen .quiet) { σ with pc := .submitting call call.toSubmit.toNat }
  | cleanFree (hpc : σ.pc = .clean) (hfull : σ.sq.isFull σ.queue = false) :
      Step s σ (.seen .quiet) { σ with pc := .cleanSync }
  | submitted {call left} (hpc : σ.pc = .submitting call left) :
      Step s σ (.submitted left) { σ with pc := .cleanSync }
  | busy {call left} (hpc : σ.pc = .submitting call left) :
      Step s σ (.busy left) { σ with pc := .accept }
  | cleanDone {sq queue} (hpc : σ.pc = .cleanSync) (hbacklog : σ.backlog = [])
      (hsync : σ.sq.sync σ.queue = (sq, queue)) :
      Step s σ (.seen .quiet) { σ with sq, queue, pc := .accept }
  | cleanPush {entry rest sq queue sq' queue'} (hpc : σ.pc = .cleanSync)
      (hbacklog : σ.backlog = entry :: rest) (hsync : σ.sq.sync σ.queue = (sq, queue))
      (h : sq.push queue entry = .ok (sq', queue')) :
      Step s σ (.seen .quiet)
        { σ with backlog := rest, sq := sq', queue := queue', pc := .clean }
  | cleanDrop {entry rest sq queue err} (hpc : σ.pc = .cleanSync)
      (hbacklog : σ.backlog = entry :: rest) (hsync : σ.sq.sync σ.queue = (sq, queue))
      (h : sq.push queue entry = .error err) :
      Step s σ (.seen (.dropped entry)) { σ with backlog := rest, sq, queue, pc := .clean }
  | accept {accept sq queue} (hpc : σ.pc = .accept)
      (h : σ.tables.accept.pushTo σ.sq σ.queue = (accept, sq, queue)) :
      Step s σ (.seen .quiet)
        { σ with tables := { σ.tables with accept }, sq, queue, pc := .serve }
  -- the loop over the completions
  | serve {cqe cq fresh tables reply sq queue backlog} (hpc : σ.pc = .serve)
      (hnext : σ.cq.next σ.ring = some (cqe, cq)) (hfresh : fresh.Vacant σ.tables)
      (h : σ.tables.serve cqe.userData cqe.res fresh = some (tables, reply))
      (hpush : pushOrQueue σ.sq σ.queue σ.backlog reply.push = (sq, queue, backlog)) :
      Step s σ (.served cqe reply)
        { σ with cq, tables, sq, queue, backlog, net := reply.apply σ.net }
  | served (hpc : σ.pc = .serve) (hnext : σ.cq.next σ.ring = none) :
      Step s σ (.seen .quiet) { σ with pc := .wait }
  -- the kernel
  | consume {pc entry queue} (hpc : σ.pc.consume = some pc)
      (h : σ.queue.kernelRead = some (entry, queue)) :
      Step s σ (.seen .quiet) { σ with queue, working := σ.working ++ [entry], pc }
  | answer {entry after op cqe event net ring} (before : List Squeue.Entry)
      (hworking : σ.working = before ++ entry :: after) (hop : decode (.entry entry) = some op)
      (hkey : cqe.userData = entry.getUserData) (h : Answer σ.net op cqe.res event net)
      (hroom : σ.overflow = []) (hpost : σ.ring.kernelPost cqe = some ring) :
      Step s σ (.seen event) { σ with working := before ++ after, net, ring }
  | answerOverflow {entry after op cqe event net} (before : List Squeue.Entry)
      (hworking : σ.working = before ++ entry :: after) (hop : decode (.entry entry) = some op)
      (hkey : cqe.userData = entry.getUserData) (h : Answer σ.net op cqe.res event net)
      (hfull : σ.overflow ≠ [] ∨ σ.ring.kernelPost cqe = none) :
      Step s σ (.seen event)
        { σ with
          working := before ++ after
          net
          overflow := σ.overflow ++ [cqe]
          queue := Ring.raiseOverflow σ.queue }
  | flush {call moved left ring} (hpc : σ.pc.call = some call)
      (hflag : call.flag &&& Sys.ioringEnterGetevents ≠ 0)
      (h : Ring.flush σ.ring σ.overflow = (moved, left, ring)) :
      Step s σ (.seen .quiet)
        { σ with ring, overflow := left, queue := Ring.afterFlush σ.queue left }
  | otherFlags {flags}
      (h : flags &&& Sys.ioringSqCqOverflow = σ.queue.flags &&& Sys.ioringSqCqOverflow) :
      Step s σ (.seen .quiet) { σ with queue := { σ.queue with flags } }

/-- `main` after it has split its fresh ring and made its first token. -/
def State.start (queue : Squeue.Inner Squeue.Entry) (ring : Cqueue.Inner Cqueue.Entry)
    (listener : Int32) (k₀ : UInt64) (net : Net) : State where
  queue := queue
  sq := queue.borrow
  ring := ring
  cq := ring.borrow
  working := []
  overflow := []
  backlog := []
  tables := .start listener k₀
  net := net
  pc := .setup

end IoUring.TcpEcho
