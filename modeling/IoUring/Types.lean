import IoUring.Sys

/-!
# Argument types of the operation builders

Addresses are the 64-bit integers they are cast to; flag sets are their bits.
-/

namespace IoUring.Types

/-- `sealed::Target`: a raw descriptor or an index into the registered files. -/
inductive Target where
  | fd (fd : Int32)
  | fixed (idx : UInt32)
  deriving DecidableEq

def Target.isFixed : Target → Bool
  | .fd _ => false
  | .fixed _ => true

/-- A file descriptor that has been registered with io_uring. -/
structure Fixed where
  idx : UInt32

/-- `u32::saturating_add`. -/
def saturatingAdd (x y : UInt32) : UInt32 :=
  if x.toNat + y.toNat < UInt32.size then x + y else 0xffffffff

/-- A destination slot, indexed as by the kernel (target + 1); the field is a `NonZeroU32`. -/
structure DestinationSlot where
  dest : UInt32
  dest_ne : dest ≠ 0

namespace DestinationSlot

/-- Use an automatically allocated target slot. -/
def autoTarget : DestinationSlot where
  dest := Sys.ioringFileIndexAlloc.toUInt32
  dest_ne := by decide

/-- The constant `MAX_INDEX`, whose subtraction is checked when it is compiled. -/
def maxIndex : UInt32 := autoTarget.dest - 2

/-- Try to use a given target slot. The outer `none` is a failed `debug_assert!` or `unwrap`. -/
def tryFromSlotTarget (target : UInt32) : Option (Except UInt32 DestinationSlot) :=
  if target > maxIndex then some (.error target)
  else
    let kernelIndex := saturatingAdd target 1
    if 0 < kernelIndex ∧ kernelIndex < autoTarget.dest then
      if h : kernelIndex ≠ 0 then some (.ok { dest := kernelIndex, dest_ne := h }) else none
    else none

def kernelIndexArg (slot : DestinationSlot) : UInt32 := slot.dest

end DestinationSlot

/-- What to look for among the requests in flight. -/
structure CancelBuilder where
  flags : UInt32
  userData : Option UInt64
  fd : Option Target

namespace CancelBuilder

def any : CancelBuilder where
  flags := Sys.ioringAsyncCancelAny
  userData := none
  fd := none

def ofUserData (userData : UInt64) : CancelBuilder where
  flags := 0
  userData := some userData
  fd := none

def ofFd (target : Target) : CancelBuilder where
  flags :=
    if target.isFixed then Sys.ioringAsyncCancelFd ||| Sys.ioringAsyncCancelFdFixed
    else Sys.ioringAsyncCancelFd
  userData := none
  fd := some target

def all (builder : CancelBuilder) : CancelBuilder :=
  { builder with flags := builder.flags ||| Sys.ioringAsyncCancelAll }

def toFd (builder : CancelBuilder) : Int32 :=
  match builder.fd with
  | some (.fd fd) => fd
  | some (.fixed idx) => idx.toInt32
  | none => -1

end CancelBuilder

end IoUring.Types
