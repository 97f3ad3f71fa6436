import IoUring.Sys

/-!
# The parameters of a ring

`io_uring_params` without its reserved words and user addresses, which no
function reads. The builder fills in some fields and the kernel the others.
-/

namespace IoUring

/-- `io_sqring_offsets`: where the words of the submission ring lie in its mapping. -/
structure SqringOffsets where
  head : UInt32
  tail : UInt32
  ringMask : UInt32
  ringEntries : UInt32
  flags : UInt32
  dropped : UInt32
  array : UInt32
  deriving DecidableEq

/-- `io_cqring_offsets`: where the words of the completion ring lie in its mapping. -/
structure CqringOffsets where
  head : UInt32
  tail : UInt32
  ringMask : UInt32
  ringEntries : UInt32
  overflow : UInt32
  cqes : UInt32
  flags : UInt32
  deriving DecidableEq

structure Parameters where
  sqEntries : UInt32
  cqEntries : UInt32
  flags : UInt32
  sqThreadCpu : UInt32
  sqThreadIdle : UInt32
  features : UInt32
  wqFd : UInt32
  sqOff : SqringOffsets
  cqOff : CqringOffsets
  deriving DecidableEq

namespace Parameters

def isSetupSqpoll (p : Parameters) : Bool := p.flags &&& Sys.ioringSetupSqpoll != 0

def isSetupIopoll (p : Parameters) : Bool := p.flags &&& Sys.ioringSetupIopoll != 0

def isFeatureSingleMmap (p : Parameters) : Bool := p.features &&& Sys.ioringFeatSingleMmap != 0

def isFeatureNodrop (p : Parameters) : Bool := p.features &&& Sys.ioringFeatNodrop != 0

def isFeatureRegRegRing (p : Parameters) : Bool := p.features &&& Sys.ioringFeatRegRegRing != 0

/-- `io_uring_params::default()`. -/
def zeroed : Parameters where
  sqEntries := 0
  cqEntries := 0
  flags := 0
  sqThreadCpu := 0
  sqThreadIdle := 0
  features := 0
  wqFd := 0
  sqOff := ⟨0, 0, 0, 0, 0, 0, 0⟩
  cqOff := ⟨0, 0, 0, 0, 0, 0, 0⟩

end Parameters

end IoUring
