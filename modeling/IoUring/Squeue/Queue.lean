import IoUring.Sys
import IoUring.RingSize

/-!
# The submission queue

`squeue::Inner` holds pointers into the shared mapping; here each pointer is
replaced by the memory it designates, so that an operation on the queue takes
the `Inner` it finds and returns the one it leaves. A `SubmissionQueue` caches
head and tail and writes the tail back only in `sync` and `drop`.
-/

namespace IoUring.Squeue

variable {E : Type*}

/-- `squeue::Inner` with the words and the entries its pointers designate. -/
structure Inner (E : Type*) extends RingSize where
  head : UInt32
  tail : UInt32
  flags : UInt32
  dropped : UInt32
  sqes : Nat → E

/-- The handle's own copies of head and tail. -/
structure SubmissionQueue where
  head : UInt32
  tail : UInt32

/-- An error pushing to the submission queue due to it being full. -/
inductive PushError where
  | pushError
  deriving DecidableEq

def Inner.borrowShared (q : Inner E) : SubmissionQueue where
  head := q.head
  tail := q.tail

def Inner.borrow (q : Inner E) : SubmissionQueue := q.borrowShared

namespace SubmissionQueue

/-- The release store of the local tail, in `sync` and in `drop`. -/
def storeTail (sq : SubmissionQueue) (q : Inner E) : Inner E :=
  { q with tail := sq.tail }

/-- The acquire load of the kernel's head, the second half of `sync`. -/
def loadHead (sq : SubmissionQueue) (q : Inner E) : SubmissionQueue :=
  { sq with head := q.head }

def sync (sq : SubmissionQueue) (q : Inner E) : SubmissionQueue × Inner E :=
  let q := sq.storeTail q
  (sq.loadHead q, q)

def drop (sq : SubmissionQueue) (q : Inner E) : Inner E := sq.storeTail q

def needWakeup (q : Inner E) : Bool := q.flags &&& Sys.ioringSqNeedWakeup != 0

def cqOverflow (q : Inner E) : Bool := q.flags &&& Sys.ioringSqCqOverflow != 0

def capacity (q : Inner E) : UInt64 := q.ringEntries.toUInt64

def len (sq : SubmissionQueue) : UInt64 := (sq.tail - sq.head).toUInt64

def isEmpty (sq : SubmissionQueue) : Bool := sq.len == 0

def isFull (sq : SubmissionQueue) (q : Inner E) : Bool := sq.len == capacity q

def pushUnchecked (sq : SubmissionQueue) (q : Inner E) (entry : E) :
    SubmissionQueue × Inner E :=
  ({ sq with tail := sq.tail + 1 },
    { q with sqes := Function.update q.sqes (q.slotOf sq.tail) entry })

def push (sq : SubmissionQueue) (q : Inner E) (entry : E) :
    Except PushError (SubmissionQueue × Inner E) :=
  if !sq.isFull q then .ok (sq.pushUnchecked q entry) else .error .pushError

/-- The loop of `push_multiple` over the entries. -/
def pushAll (sq : SubmissionQueue) (q : Inner E) : List E → SubmissionQueue × Inner E
  | [] => (sq, q)
  | entry :: rest =>
      let (sq, q) := sq.pushUnchecked q entry
      pushAll sq q rest

/-- The subtraction is `usize` arithmetic and the comparison is with the length of a slice. -/
def pushMultiple (sq : SubmissionQueue) (q : Inner E) (entries : List E) :
    Except PushError (SubmissionQueue × Inner E) :=
  if (capacity q - sq.len).toNat < entries.length then .error .pushError
  else .ok (pushAll sq q entries)

variable {sq : SubmissionQueue} {h t : Nat}

/-- The length is the distance of the positions that head and tail stand for. -/
theorem len_of_positions (hhead : sq.head = .ofNat h) (htail : sq.tail = .ofNat t)
    (hle : h ≤ t) (hlt : t < h + 2 ^ 32) : sq.len.toNat = t - h := by
  rw [len, UInt32.toNat_toUInt64, hhead, htail, Foundation.toNat_ofNat_sub_ofNat hle hlt]

theorem toNat_capacity (q : Inner E) : (capacity q).toNat = q.slots := by
  rw [capacity, UInt32.toNat_toUInt64]
  rfl

theorem isFull_iff_len (q : Inner E) : sq.isFull q = true ↔ sq.len.toNat = q.slots := by
  rw [isFull, beq_iff_eq, ← UInt64.toNat_inj, toNat_capacity]

/-- A push that succeeds found room. -/
theorem of_push {q : Inner E} {entry : E} {sq' : SubmissionQueue} {q' : Inner E}
    (heq : sq.push q entry = .ok (sq', q')) :
    sq.len.toNat ≠ q.slots ∧ sq.pushUnchecked q entry = (sq', q') := by
  unfold push at heq
  split at heq
  · rename_i hfree
    refine ⟨?_, Except.ok.inj heq⟩
    intro hlen
    rw [isFull_iff_len q |>.mpr hlen] at hfree
    cases hfree
  · cases heq

/-- A batch that succeeds fitted, and its loop ran. -/
theorem of_pushMultiple {q : Inner E} {entries : List E} {sq' : SubmissionQueue} {q' : Inner E}
    (heq : sq.pushMultiple q entries = .ok (sq', q')) :
    entries.length ≤ (capacity q - sq.len).toNat ∧ sq.pushAll q entries = (sq', q') := by
  unfold pushMultiple at heq
  split at heq
  · cases heq
  · rename_i hfits
    exact ⟨Nat.le_of_not_lt hfits, Except.ok.inj heq⟩

/-- Pushing writes entries and nothing else. -/
theorem pushAll_writes (sq : SubmissionQueue) (q : Inner E) (entries : List E) :
    (sq.pushAll q entries).2 = { q with sqes := (sq.pushAll q entries).2.sqes } := by
  induction entries generalizing sq q with
  | nil => rfl
  | cons entry rest ih => exact ih _ _

end SubmissionQueue

end IoUring.Squeue
