import IoUring.Cqueue.Entry
import IoUring.Mmap
import IoUring.Parameters
import IoUring.Squeue.Entry

/-!
# Setting up a ring

`IoUring::with_fd_and_params` maps the rings and the entries and derives every
pointer of the two `Inner`s from the offsets in the parameters. The kernel's
answers are a parameter; where a load or a store would leave its mapping the
result is `none`.
-/

namespace IoUring

namespace Squeue

/-- `squeue::Inner` with its pointers, which are offsets into the mapping of the ring
and, for `sqes`, into that of the entries. -/
structure RawInner where
  head : Nat
  tail : Nat
  ringMask : UInt32
  ringEntries : UInt32
  flags : Nat
  dropped : Nat
  sqes : Nat
  deriving DecidableEq

/-- The loop of `Inner::new` over the indices below the bound. -/
def initArray (sqMmap : Mmap) (array : Nat) : Nat → Option Mmap
  | 0 => some sqMmap
  | i + 1 => do
      let sqMmap ← initArray sqMmap array i
      sqMmap.storeWord (array + 4 * i) (.ofNat i)

/-- `Inner::new`, with the mapping of the ring as it leaves it. -/
def RawInner.new (sqMmap : Mmap) (p : Parameters) : Option (RawInner × Mmap) := do
  let ringMask ← sqMmap.loadWord p.sqOff.ringMask.toNat
  let ringEntries ← sqMmap.loadWord p.sqOff.ringEntries.toNat
  let sqMmap ←
    if p.flags &&& Sys.ioringSetupNoSqarray == 0 then
      initArray sqMmap p.sqOff.array.toNat ringEntries.toNat
    else some sqMmap
  some
    ({ head := p.sqOff.head.toNat
       tail := p.sqOff.tail.toNat
       ringMask
       ringEntries
       flags := p.sqOff.flags.toNat
       dropped := p.sqOff.dropped.toNat
       sqes := 0 }, sqMmap)

/-- Where `push_unchecked` writes the entry that `tail` counts. -/
def RawInner.entryOffset (q : RawInner) (S : EntryType) (tail : UInt32) : Nat :=
  q.sqes + (tail &&& q.ringMask).toNat * S.size

end Squeue

namespace Cqueue

/-- `cqueue::Inner` with its pointers, which are offsets into the mapping of the ring. -/
structure RawInner where
  head : Nat
  tail : Nat
  ringMask : UInt32
  ringEntries : UInt32
  overflow : Nat
  cqes : Nat
  flags : Nat
  deriving DecidableEq

def RawInner.new (cqMmap : Mmap) (p : Parameters) : Option RawInner := do
  let ringMask ← cqMmap.loadWord p.cqOff.ringMask.toNat
  let ringEntries ← cqMmap.loadWord p.cqOff.ringEntries.toNat
  some
    { head := p.cqOff.head.toNat
      tail := p.cqOff.tail.toNat
      ringMask
      ringEntries
      overflow := p.cqOff.overflow.toNat
      cqes := p.cqOff.cqes.toNat
      flags := p.cqOff.flags.toNat }

/-- Where `pop` reads the entry that `head` counts. -/
def RawInner.entryOffset (q : RawInner) (C : EntryType) (head : UInt32) : Nat :=
  q.cqes + (head &&& q.ringMask).toNat * C.size

end Cqueue

namespace Parameters

variable (p : Parameters)

def sqLen : UInt64 := p.sqOff.array.toUInt64 + p.sqEntries.toUInt64 * 4

def cqLen (C : Cqueue.EntryType) : UInt64 :=
  p.cqOff.cqes.toUInt64 + p.cqEntries.toUInt64 * .ofNat C.size

def sqeLen (S : Squeue.EntryType) : UInt64 := p.sqEntries.toUInt64 * .ofNat S.size

end Parameters

namespace Ring

/-- What the operating system answers; a mapping has the length that was asked for. -/
structure Kernel where
  setup : UInt32 → Parameters → Except Int32 (Int32 × Parameters)
  mmap : Int32 → UInt64 → (len : UInt64) → Except Int32 { m : Mmap // m.len = len.toNat }
  madvise : Mmap → Except Int32 Unit

structure MemoryMap where
  sqMmap : Mmap
  sqeMmap : Mmap
  cqMmap : Option Mmap

/-- The mapping that the pointers of `cqueue::Inner` are derived from. -/
def MemoryMap.cq (memory : MemoryMap) : Mmap := memory.cqMmap.getD memory.sqMmap

/-- An `IoUring`; its type parameters matter through the entries' sizes and flags. -/
structure Instance (S : Squeue.EntryType) (C : Cqueue.EntryType) where
  sq : Squeue.RawInner
  cq : Cqueue.RawInner
  fd : Int32
  params : Parameters
  memory : MemoryMap

variable (S : Squeue.EntryType) (C : Cqueue.EntryType) (kernel : Kernel)

/-- The outer option tells whether all memory accesses are inside their mappings. -/
def setupQueue (fd : Int32) (p : Parameters) :
    Option (Except Int32 (MemoryMap × Squeue.RawInner × Cqueue.RawInner)) :=
  match kernel.mmap fd Sys.ioringOffSqes (p.sqeLen S) with
  | .error errno => some (.error errno)
  | .ok ⟨sqeMmap, _⟩ =>
      if p.isFeatureSingleMmap then
        match kernel.mmap fd Sys.ioringOffSqRing (max p.sqLen (p.cqLen C)) with
        | .error errno => some (.error errno)
        | .ok ⟨scqMmap, _⟩ => do
            let (sq, scqMmap) ← Squeue.RawInner.new scqMmap p
            let cq ← Cqueue.RawInner.new scqMmap p
            some (.ok ({ sqMmap := scqMmap, sqeMmap, cqMmap := none }, sq, cq))
      else
        match kernel.mmap fd Sys.ioringOffSqRing p.sqLen with
        | .error errno => some (.error errno)
        | .ok ⟨sqMmap, _⟩ =>
            match kernel.mmap fd Sys.ioringOffCqRing (p.cqLen C) with
            | .error errno => some (.error errno)
            | .ok ⟨cqMmap, _⟩ => do
                let (sq, sqMmap) ← Squeue.RawInner.new sqMmap p
                let cq ← Cqueue.RawInner.new cqMmap p
                some (.ok ({ sqMmap, sqeMmap, cqMmap := some cqMmap }, sq, cq))

def withFdAndParams (fd : Int32) (p : Parameters) : Option (Except Int32 (Instance S C)) := do
  match ← setupQueue S C kernel fd p with
  | .error errno => some (.error errno)
  | .ok (memory, sq, cq) => some (.ok { sq, cq, fd, params := p, memory })

def withParams (entries : UInt32) (p : Parameters) : Option (Except Int32 (Instance S C)) :=
  match kernel.setup entries p with
  | .error errno => some (.error errno)
  | .ok (fd, p) => withFdAndParams S C kernel fd p

end Ring

end IoUring
