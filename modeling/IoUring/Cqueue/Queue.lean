import IoUring.RingSize

/-!
# The completion queue

As for the submission queue, the pointers of `cqueue::Inner` are replaced by
the memory they designate. A `CompletionQueue` caches head and tail; entries it
returned are given back to the kernel only in `sync` and `drop`.
-/

namespace IoUring.Cqueue

variable {E : Type*}

/-- `cqueue::Inner` with the words and the entries its pointers designate. -/
structure Inner (E : Type*) extends RingSize where
  head : UInt32
  tail : UInt32
  overflow : UInt32
  flags : UInt32
  cqes : Nat → E

/-- The handle's own copies of head and tail. -/
structure CompletionQueue where
  head : UInt32
  tail : UInt32

def Inner.borrowShared (q : Inner E) : CompletionQueue where
  head := q.head
  tail := q.tail

def Inner.borrow (q : Inner E) : CompletionQueue := q.borrowShared

namespace CompletionQueue

/-- The release store of the local head, in `sync` and in `drop`. -/
def storeHead (cq : CompletionQueue) (q : Inner E) : Inner E :=
  { q with head := cq.head }

/-- The acquire load of the kernel's tail, the second half of `sync`. -/
def loadTail (cq : CompletionQueue) (q : Inner E) : CompletionQueue :=
  { cq with tail := q.tail }

def sync (cq : CompletionQueue) (q : Inner E) : CompletionQueue × Inner E :=
  let q := cq.storeHead q
  (cq.loadTail q, q)

def drop (cq : CompletionQueue) (q : Inner E) : Inner E := cq.storeHead q

def overflow (q : Inner E) : UInt32 := q.overflow

def capacity (q : Inner E) : UInt64 := q.ringEntries.toUInt64

def len (cq : CompletionQueue) : UInt64 := (cq.tail - cq.head).toUInt64

def isEmpty (cq : CompletionQueue) : Bool := cq.len == 0

def isFull (cq : CompletionQueue) (q : Inner E) : Bool := cq.len == capacity q

def pop (cq : CompletionQueue) (q : Inner E) : E × CompletionQueue :=
  (q.cqes (q.slotOf cq.head), { cq with head := cq.head + 1 })

def next (cq : CompletionQueue) (q : Inner E) : Option (E × CompletionQueue) :=
  if cq.head ≠ cq.tail then some (cq.pop q) else none

def sizeHint (cq : CompletionQueue) : UInt64 × Option UInt64 := (cq.len, some cq.len)

/-- The loop of `fill`: one `pop` for each element of the output slice. -/
def popEach (cq : CompletionQueue) (q : Inner E) : List (Option E) → List E × CompletionQueue
  | [] => ([], cq)
  | _ :: rest =>
      let (entry, cq) := cq.pop q
      let (filled, cq) := popEach cq q rest
      (entry :: filled, cq)

/-- The output slice holds possibly uninitialised entries. The result is the
filled front of the slice, and the slice as it is left. -/
def fill (cq : CompletionQueue) (q : Inner E) (entries : List (Option E)) :
    List E × List (Option E) × CompletionQueue :=
  let len := min cq.len.toNat entries.length
  let (filled, cq) := cq.popEach q (entries.take len)
  (filled, filled.map some ++ entries.drop len, cq)

variable {cq : CompletionQueue} {h t : Nat}

theorem next_eq_none_iff {q : Inner E} : cq.next q = none ↔ cq.head = cq.tail := by
  rw [next]
  split
  · rename_i hne
    exact iff_of_false nofun hne
  · rename_i heq
    exact iff_of_true rfl (Decidable.not_not.mp heq)

/-- The length is the distance of the positions that head and tail stand for. -/
theorem len_of_positions (hhead : cq.head = .ofNat h) (htail : cq.tail = .ofNat t)
    (hle : h ≤ t) (hlt : t < h + 2 ^ 32) : cq.len.toNat = t - h := by
  rw [len, UInt32.toNat_toUInt64, hhead, htail, Foundation.toNat_ofNat_sub_ofNat hle hlt]

theorem toNat_capacity (q : Inner E) : (capacity q).toNat = q.slots := by
  rw [capacity, UInt32.toNat_toUInt64]
  rfl

end CompletionQueue

end IoUring.Cqueue
