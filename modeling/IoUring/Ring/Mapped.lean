import IoUring.Foundation.Region
import IoUring.Ring.Setup
import IoUring.Ring.System
import IoUring.Squeue.ByteImage

/-!
# The ring in its mappings

The operations of the two queues on the bytes they share with the kernel: each
word and each entry is reached through a pointer into a mapping, and an access
that leaves its mapping is a fault, `none`. The kernel finds the same words and
entries through the same offsets.
-/

namespace IoUring

open Foundation (Packed Regions)

inductive Mapping where
  | sq
  | sqe
  | cq
  deriving DecidableEq

namespace Squeue.RawInner

variable {E : Type} [Packed E] (q : RawInner) (mem : Regions Mapping)

/-- Where the entry that a counter designates is, in the mapping of the entries. -/
def entryAt (E : Type) [Packed E] (counter : UInt32) : Nat :=
  q.sqes + (counter &&& q.ringMask).toNat * Packed.size E

def borrowShared : Option SubmissionQueue := do
  let head ← mem.fetch UInt32 .sq q.head
  let tail ← mem.fetch UInt32 .sq q.tail
  some { head, tail }

/-- The release store of the local tail, in `sync` and in `drop`. -/
def storeTail (sq : SubmissionQueue) : Option (Regions Mapping) := mem.put .sq q.tail sq.tail

/-- The acquire load of the kernel's head, the second half of `sync`. -/
def loadHead (sq : SubmissionQueue) : Option SubmissionQueue := do
  let head ← mem.fetch UInt32 .sq q.head
  some { sq with head }

def isFull (sq : SubmissionQueue) : Bool := sq.len == q.ringEntries.toUInt64

def pushUnchecked (sq : SubmissionQueue) (entry : E) :
    Option (SubmissionQueue × Regions Mapping) := do
  let mem ← mem.put .sqe (q.entryAt E sq.tail) entry
  some ({ sq with tail := sq.tail + 1 }, mem)

def push (sq : SubmissionQueue) (entry : E) :
    Option (Except PushError (SubmissionQueue × Regions Mapping)) :=
  if !q.isFull sq then do
    let pushed ← q.pushUnchecked mem sq entry
    some (.ok pushed)
  else some (.error .pushError)

/-- The loop of `push_multiple` over the entries. -/
def pushAll (mem : Regions Mapping) (sq : SubmissionQueue) :
    List E → Option (SubmissionQueue × Regions Mapping)
  | [] => some (sq, mem)
  | entry :: rest => do
      let (sq, mem) ← q.pushUnchecked mem sq entry
      pushAll mem sq rest

def pushMultiple (sq : SubmissionQueue) (entries : List E) :
    Option (Except PushError (SubmissionQueue × Regions Mapping)) :=
  if (q.ringEntries.toUInt64 - sq.len).toNat < entries.length then some (.error .pushError)
  else do
    let pushed ← q.pushAll mem sq entries
    some (.ok pushed)

/-- What the application does with the submission queue. -/
inductive Call (E : Type) where
  | borrow
  | push (entry : E)
  | pushMultiple (entries : List E)
  | syncStore
  | syncLoad
  | drop
  | leak

/-- A call, which shows an event where the handle is in a state for it. -/
def call : App → Call E → Option (Option (Event E × App × Regions Mapping))
  | .none, .borrow => do
      let sq ← q.borrowShared mem
      some (some (.borrowed, .ready sq, mem))
  | .ready sq, .push entry => do
      match ← q.push mem sq entry with
      | .ok (sq, mem) => some (some (.pushed [entry], .ready sq, mem))
      | .error _ => some (some (.refused [entry], .ready sq, mem))
  | .ready sq, .pushMultiple entries => do
      match ← q.pushMultiple mem sq entries with
      | .ok (sq, mem) => some (some (.pushed entries, .ready sq, mem))
      | .error _ => some (some (.refused entries, .ready sq, mem))
  | .ready sq, .syncStore => do
      let mem ← q.storeTail mem sq
      some (some (.published, .syncing sq, mem))
  | .syncing sq, .syncLoad => do
      let sq ← q.loadHead mem sq
      some (some (.loaded, .ready sq, mem))
  | .ready sq, .drop => do
      let mem ← q.storeTail mem sq
      some (some (.dropped, .none, mem))
  | .ready _, .leak => some (some (.leaked, .none, mem))
  | _, _ => some none

end Squeue.RawInner

namespace Cqueue.RawInner

variable {E : Type} [Packed E] (q : RawInner) (mapping : Mapping) (mem : Regions Mapping)

/-- Where the entry that a counter designates is, in the mapping of the ring. -/
def entryAt (E : Type) [Packed E] (counter : UInt32) : Nat :=
  q.cqes + (counter &&& q.ringMask).toNat * Packed.size E

def borrowShared : Option CompletionQueue := do
  let head ← mem.fetch UInt32 mapping q.head
  let tail ← mem.fetch UInt32 mapping q.tail
  some { head, tail }

/-- The release store of the local head, in `sync` and in `drop`. -/
def storeHead (cq : CompletionQueue) : Option (Regions Mapping) := mem.put mapping q.head cq.head

/-- The acquire load of the kernel's tail, the second half of `sync`. -/
def loadTail (cq : CompletionQueue) : Option CompletionQueue := do
  let tail ← mem.fetch UInt32 mapping q.tail
  some { cq with tail }

def pop (cq : CompletionQueue) : Option (E × CompletionQueue) := do
  let entry ← mem.fetch E mapping (q.entryAt E cq.head)
  some (entry, { cq with head := cq.head + 1 })

def next (cq : CompletionQueue) : Option (Option (E × CompletionQueue)) :=
  if cq.head ≠ cq.tail then do
    let popped ← q.pop mapping mem cq
    some (some popped)
  else some none

/-- The loop of `fill`: one `pop` for each element of the output slice. -/
def popEach (cq : CompletionQueue) : List (Option E) → Option (List E × CompletionQueue)
  | [] => some ([], cq)
  | _ :: rest => do
      let (entry, cq) ← q.pop (E := E) mapping mem cq
      let (filled, cq) ← popEach cq rest
      some (entry :: filled, cq)

def fill (cq : CompletionQueue) (entries : List (Option E)) :
    Option (List E × List (Option E) × CompletionQueue) := do
  let len := min cq.len.toNat entries.length
  let (filled, cq) ← q.popEach mapping mem cq (entries.take len)
  some (filled, filled.map some ++ entries.drop len, cq)

/-- What the application does with the completion queue. -/
inductive Call (E : Type) where
  | borrow
  | next
  | fill (entries : List (Option E))
  | syncStore
  | syncLoad
  | drop

/-- A call, which shows an event where the handle is in a state for it. -/
def call : App → Call E → Option (Option (Event E × App × Regions Mapping))
  | .none, .borrow => do
      let cq ← q.borrowShared mapping mem
      some (some (.borrowed, .ready cq, mem))
  | .ready cq, .next => do
      match ← q.next mapping mem cq with
      | some (entry, cq) => some (some (.returned [entry], .ready cq, mem))
      | none => some (some (.returned [], .ready cq, mem))
  | .ready cq, .fill entries => do
      let (filled, _, cq) ← q.fill mapping mem cq entries
      some (some (.returned filled, .ready cq, mem))
  | .ready cq, .syncStore => do
      let mem ← q.storeHead mapping mem cq
      some (some (.published, .syncing cq, mem))
  | .syncing cq, .syncLoad => do
      let cq ← q.loadTail mapping mem cq
      some (some (.loaded, .ready cq, mem))
  | .ready cq, .drop => do
      let mem ← q.storeHead mapping mem cq
      some (some (.dropped, .none, mem))
  | _, _ => some none

end Cqueue.RawInner

namespace Ring

open Submit

/-- The pointers of the two `Inner`s, and where the kernel finds the index array. -/
structure Pointers where
  sq : Squeue.RawInner
  cq : Cqueue.RawInner
  /-- The mapping that the pointers of `cqueue::Inner` are derived from. -/
  cqMapping : Mapping
  array : Option Nat

namespace Mapped

variable {E C : Type} [Packed E] [Packed C] (ptr : Pointers)

/-- The kernel takes the next published entry: through the array if there is one, where it
skips and counts an index that is not below the number of entries. -/
def kernelRead (E : Type) [Packed E] (mem : Regions Mapping) :
    Option (Option (Option E × Regions Mapping)) := do
  let head ← mem.fetch UInt32 .sq ptr.sq.head
  let tail ← mem.fetch UInt32 .sq ptr.sq.tail
  if head = tail then some none
  else
    match ptr.array with
    | some array =>
        let index ← mem.fetch UInt32 .sq (array + (head &&& ptr.sq.ringMask).toNat * 4)
        if index < ptr.sq.ringEntries then
          let entry ← mem.fetch E .sqe (ptr.sq.sqes + index.toNat * Packed.size E)
          let mem ← mem.put .sq ptr.sq.head (head + 1)
          some (some (some entry, mem))
        else
          let mem ← mem.put .sq ptr.sq.head (head + 1)
          let dropped ← mem.fetch UInt32 .sq ptr.sq.dropped
          let mem ← mem.put .sq ptr.sq.dropped (dropped + 1)
          some (some (none, mem))
    | none =>
        let entry ← mem.fetch E .sqe (ptr.sq.entryAt E head)
        let mem ← mem.put .sq ptr.sq.head (head + 1)
        some (some (some entry, mem))

/-- The kernel fills the slot of its tail while the published head leaves room. -/
def kernelPost (mem : Regions Mapping) (cqe : C) : Option (Option (Regions Mapping)) := do
  let head ← mem.fetch UInt32 ptr.cqMapping ptr.cq.head
  let tail ← mem.fetch UInt32 ptr.cqMapping ptr.cq.tail
  if tail - head < ptr.cq.ringEntries then
    let mem ← mem.put ptr.cqMapping (ptr.cq.entryAt C tail) cqe
    let mem ← mem.put ptr.cqMapping ptr.cq.tail (tail + 1)
    some (some mem)
  else some none

/-- The kernel moves overflowed completions to the ring while there is room. -/
def flush (mem : Regions Mapping) : List C → Option (List C × List C × Regions Mapping)
  | [] => some ([], [], mem)
  | cqe :: rest => do
      match ← kernelPost ptr mem cqe with
      | none => some ([], cqe :: rest, mem)
      | some mem =>
          let (moved, left, mem) ← flush mem rest
          some (cqe :: moved, left, mem)

/-- The kernel changes the flags word. -/
def changeFlags (mem : Regions Mapping) (change : UInt32 → UInt32) : Option (Regions Mapping) := do
  let flags ← mem.fetch UInt32 .sq ptr.sq.flags
  mem.put .sq ptr.sq.flags (change flags)

/-- The state of the whole ring with the queues as bytes. -/
structure State (C : Type) where
  mem : Regions Mapping
  sqApp : Squeue.App
  cqApp : Cqueue.App
  inFlight : List UInt64
  overflow : List C
  pc : Pc

inductive Action (E C : Type) where
  | sq (call : Squeue.RawInner.Call E)
  | cq (call : Cqueue.RawInner.Call C)
  | call (req : Request)
  | loadHead
  | loadTail
  | loadOverflow
  | decide
  | consume
  | poll
  | submitted
  | leave
  | complete (before : List UInt64) (data : UInt64) (after : List UInt64) (cqe : C)
  | otherFlags (change : UInt32 → UInt32)

/-- An action that is not possible in a state is blocked there; one that makes the kernel
drop an index shows in no event. -/
inductive Result (E C : Type) where
  | blocked
  | dropped
  | stepped (event : Event E C) (σ : State C)

variable [Squeue.EntryMarker E] [Cqueue.EntryMarker C] (s : Submitter)

/-- The kernel consumes an entry and keeps its user data. -/
def consume (E : Type) [Packed E] [Squeue.EntryMarker E] (σ : State C) (pc : Pc) :
    Option (Result E C) := do
  match ← kernelRead ptr E σ.mem with
  | none => some .blocked
  | some (none, _) => some .dropped
  | some (some entry, mem) =>
      let inFlight := σ.inFlight ++ [Squeue.EntryMarker.getUserData entry]
      some (.stepped (.sq (.read entry)) { σ with mem, inFlight, pc })

/-- The end of `io_uring_enter`, with the move of the overflow list where `GETEVENTS` asks
for it. -/
def leave (E : Type) (σ : State C) (call : EnterCall) : Option (Result E C) :=
  if call.flag &&& Sys.ioringEnterGetevents ≠ 0 then do
    let (moved, left, mem) ← flush ptr σ.mem σ.overflow
    let mem ← if left.isEmpty then changeFlags ptr mem (· &&& ~~~Sys.ioringSqCqOverflow)
      else some mem
    some (.stepped (.flushed moved) { σ with mem, overflow := left, pc := .idle })
  else some (.stepped .silent { σ with pc := .idle })

/-- The kernel completes a request: into the ring, or behind an overflow list that holds
something already or has to take over. -/
def complete (E : Type) (σ : State C) (inFlight : List UInt64) (cqe : C) :
    Option (Result E C) := do
  let posted ← if σ.overflow.isEmpty then kernelPost ptr σ.mem cqe else some none
  match posted with
  | some mem => some (.stepped (.cq (.posted cqe)) { σ with mem, inFlight })
  | none =>
      let mem ← changeFlags ptr σ.mem (· ||| Sys.ioringSqCqOverflow)
      some (.stepped .silent { σ with mem, inFlight, overflow := σ.overflow ++ [cqe] })

def perform (σ : State C) (action : Action E C) : Option (Result E C) :=
  match action, σ.pc with
  | .sq call, _ => do
      match ← ptr.sq.call σ.mem σ.sqApp call with
      | none => some .blocked
      | some (event, sqApp, mem) => some (.stepped (.sq event) { σ with mem, sqApp })
  | .cq call, _ => do
      match ← ptr.cq.call ptr.cqMapping σ.mem σ.cqApp call with
      | none => some .blocked
      | some (event, cqApp, mem) => some (.stepped (.cq event) { σ with mem, cqApp })
  | .call req, .idle => some (.stepped .silent { σ with pc := .called req })
  | .loadHead, .called req => do
      let head ← σ.mem.fetch UInt32 .sq ptr.sq.head
      some (.stepped .silent { σ with pc := .headLoaded req head })
  | .loadTail, .headLoaded req head => do
      let tail ← σ.mem.fetch UInt32 .sq ptr.sq.tail
      some (.stepped .silent { σ with pc := .lenLoaded req (sqLen head tail) })
  | .loadOverflow, .lenLoaded req len => do
      let flags ← σ.mem.fetch UInt32 .sq ptr.sq.flags
      some (.stepped .silent { σ with pc := .overflowLoaded req len flags })
  | .decide, .overflowLoaded req len f1 => do
      let flags ← σ.mem.fetch UInt32 .sq ptr.sq.flags
      match s.finish len f1 flags req with
      | .ok _ => some (.stepped .silent { σ with pc := .idle })
      | .enter call => some (.stepped .silent { σ with pc := .submitting call call.toSubmit.toNat })
  | .consume, .submitting call (left + 1) => consume ptr E σ (.submitting call left)
  | .poll, pc => if s.params.isSetupSqpoll then consume ptr E σ pc else some .blocked
  | .submitted, .submitting call _ => some (.stepped .silent { σ with pc := .reaping call })
  | .leave, .reaping call => leave ptr E σ call
  | .complete before data after cqe, _ =>
      if σ.inFlight = before ++ data :: after ∧ Cqueue.EntryMarker.userData cqe = data then
        complete ptr E σ (before ++ after) cqe
      else some .blocked
  | .otherFlags change, _ => do
      let flags ← σ.mem.fetch UInt32 .sq ptr.sq.flags
      if change flags &&& Sys.ioringSqCqOverflow = flags &&& Sys.ioringSqCqOverflow then
        let mem ← changeFlags ptr σ.mem change
        some (.stepped .silent { σ with mem })
      else some .blocked
  | _, _ => some .blocked

/-- One step of a party that is neither blocked nor faults. -/
inductive Step : State C → Event E C → State C → Prop
  | perform {σ event σ'} (action : Action E C)
      (h : perform ptr s σ action = some (.stepped event σ')) : Step σ event σ'

/-- A sequence of actions, if each of them is possible. -/
def performs (σ : State C) : List (Action E C) → Option (List (Event E C) × State C)
  | [] => some ([], σ)
  | action :: rest =>
      match perform ptr s σ action with
      | some (.stepped event σ) => (performs σ rest).map fun done => (event :: done.1, done.2)
      | _ => none

variable {ptr s}

theorem run_of_performs {σ σ' : State C} {actions : List (Action E C)}
    {events : List (Event E C)} (h : performs ptr s σ actions = some (events, σ')) :
    Foundation.Run (Step ptr s) σ events σ' := by
  induction actions generalizing σ events with
  | nil =>
      obtain ⟨rfl, rfl⟩ := Prod.mk.inj (Option.some.inj h)
      exact .start
  | cons action rest ih =>
      unfold performs at h
      split at h
      · rename_i event σ₁ hperform
        obtain ⟨⟨events₁, σ₂⟩, hrest, hdone⟩ := Option.map_eq_some_iff.mp h
        obtain ⟨rfl, rfl⟩ := Prod.mk.inj hdone
        exact (Foundation.Run.start.next (.perform action hperform)).trans (ih hrest)
      · cases h

end Mapped

end Ring

end IoUring
