import IoUring.Types

/-!
# Submission queue entries

`io_uring_sqe` is 64 bytes. Each of its unions is kept as one little-endian
word named after its most used member; a narrower member is a part of the word.
-/

namespace IoUring.Squeue

open IoUring.Types

/-- `io_uring_sqe`, in the order of its fields. -/
structure Sqe where
  opcode : UInt8
  flags : UInt8
  ioprio : UInt16
  fd : Int32
  /-- `off`, `addr2`; `cmd_op` is the low half. -/
  off : UInt64
  /-- `addr`, `splice_off_in`; `level` is the low half and `optname` the high half. -/
  addr : UInt64
  len : UInt32
  /-- `rw_flags` and the other operation flags, all of one width. -/
  opFlags : UInt32
  userData : UInt64
  /-- `buf_index`, `buf_group`. -/
  bufIndex : UInt16
  personality : UInt16
  /-- `file_index`, `splice_fd_in`, `zcrx_ifq_idx`, `optlen`; `addr_len` is the low half. -/
  fileIndex : UInt32
  /-- `cmd`; `addr3` and `optval` are its first eight bytes. -/
  cmd : Vector UInt8 16
  deriving DecidableEq

/-- A write to the first four bytes of an eight byte word. -/
def withLow (word : UInt64) (v : UInt32) : UInt64 :=
  (word &&& (0xffffffff00000000 : UInt64)) ||| v.toUInt64

/-- A write to the last four bytes of an eight byte word. -/
def withHigh (word : UInt64) (v : UInt32) : UInt64 :=
  (word &&& (0xffffffff : UInt64)) ||| (v.toUInt64 <<< 32)

/-- A write to the first two bytes of a four byte word. -/
def withLow16 (word : UInt32) (v : UInt16) : UInt32 :=
  (word &&& (0xffff0000 : UInt32)) ||| v.toUInt32

/-- A write of a word to the first eight bytes of the command. -/
def withWord (cmd : Vector UInt8 16) (v : UInt64) : Vector UInt8 16 :=
  Vector.ofFn fun i => if i.val < 8 then (v >>> (8 * .ofNat i.val)).toUInt8 else cmd[i]

def sqeZeroed : Sqe where
  opcode := 0
  flags := 0
  ioprio := 0
  fd := 0
  off := 0
  addr := 0
  len := 0
  opFlags := 0
  userData := 0
  bufIndex := 0
  personality := 0
  fileIndex := 0
  cmd := Vector.replicate 16 0

namespace Flags

def fixedFile : UInt8 := 1 <<< Sys.iosqeFixedFileBit
def ioDrain : UInt8 := 1 <<< Sys.iosqeIoDrainBit
def ioLink : UInt8 := 1 <<< Sys.iosqeIoLinkBit
def ioHardlink : UInt8 := 1 <<< Sys.iosqeIoHardlinkBit
def async : UInt8 := 1 <<< Sys.iosqeAsyncBit
def bufferSelect : UInt8 := 1 <<< Sys.iosqeBufferSelectBit
def skipSuccess : UInt8 := 1 <<< Sys.iosqeCqeSkipSuccessBit

end Flags

/-- The file the kernel decodes from an entry. -/
def Sqe.file (sqe : Sqe) : Target :=
  if sqe.flags &&& Flags.fixedFile ≠ 0 then .fixed sqe.fd.toUInt32 else .fd sqe.fd

structure Entry where
  sqe : Sqe
  deriving DecidableEq

namespace Entry

def flags (entry : Entry) (flags : UInt8) : Entry :=
  { entry with sqe.flags := entry.sqe.flags ||| flags }

def clearFlags (entry : Entry) : Entry := { entry with sqe.flags := 0 }

def userData (entry : Entry) (userData : UInt64) : Entry :=
  { entry with sqe.userData := userData }

def setUserData (entry : Entry) (userData : UInt64) : Entry :=
  { entry with sqe.userData := userData }

def getUserData (entry : Entry) : UInt64 := entry.sqe.userData

def getOpcode (entry : Entry) : UInt32 := entry.sqe.opcode.toUInt32

def personality (entry : Entry) (personality : UInt16) : Entry :=
  { entry with sqe.personality := personality }

end Entry

structure Entry128 where
  entry : Entry
  rest : Vector UInt8 64
  deriving DecidableEq

namespace Entry128

def flags (entry : Entry128) (flags : UInt8) : Entry128 :=
  { entry with entry.sqe.flags := entry.entry.sqe.flags ||| flags }

def clearFlags (entry : Entry128) : Entry128 := { entry with entry.sqe.flags := 0 }

def userData (entry : Entry128) (userData : UInt64) : Entry128 :=
  { entry with entry.sqe.userData := userData }

def setUserData (entry : Entry128) (userData : UInt64) : Entry128 :=
  { entry with entry.sqe.userData := userData }

def getUserData (entry : Entry128) : UInt64 := entry.entry.sqe.userData

def getOpcode (entry : Entry128) : UInt32 := entry.entry.sqe.opcode.toUInt32

def personality (entry : Entry128) (personality : UInt16) : Entry128 :=
  { entry with entry.sqe.personality := personality }

/-- `From<Entry> for Entry128`. -/
def ofEntry (entry : Entry) : Entry128 where
  entry := entry
  rest := Vector.replicate 64 0

end Entry128

/-- What both submission entry types provide, and their sizes in bytes. -/
class EntryMarker (E : Type) where
  buildFlags : UInt32
  getUserData : E → UInt64
  setUserData : E → UInt64 → E
  size : Nat

instance : EntryMarker Entry where
  buildFlags := 0
  getUserData := Entry.getUserData
  setUserData := Entry.setUserData
  size := 64

instance : EntryMarker Entry128 where
  buildFlags := Sys.ioringSetupSqe128
  getUserData := Entry128.getUserData
  setUserData := Entry128.setUserData
  size := 128

/-- The types that implement the trait, which is sealed. -/
inductive EntryType where
  | entry
  | entry128
  deriving DecidableEq

def EntryType.buildFlags : EntryType → UInt32
  | .entry => EntryMarker.buildFlags Entry
  | .entry128 => EntryMarker.buildFlags Entry128

/-- `mem::size_of`. -/
def EntryType.size : EntryType → Nat
  | .entry => EntryMarker.size Entry
  | .entry128 => EntryMarker.size Entry128

/-- A call of one of the setters that both entry types have. -/
inductive Setter where
  | flags (flags : UInt8)
  | clearFlags
  | userData (userData : UInt64)
  | setUserData (userData : UInt64)
  | personality (personality : UInt16)

/-- An entry as a builder returns it. -/
inductive Built where
  | entry (entry : Entry)
  | entry128 (entry : Entry128)

namespace Built

def sqe : Built → Sqe
  | .entry e => e.sqe
  | .entry128 e => e.entry.sqe

def apply : Built → Setter → Built
  | .entry e, .flags flags => .entry (e.flags flags)
  | .entry e, .clearFlags => .entry e.clearFlags
  | .entry e, .userData userData => .entry (e.userData userData)
  | .entry e, .setUserData userData => .entry (e.setUserData userData)
  | .entry e, .personality personality => .entry (e.personality personality)
  | .entry128 e, .flags flags => .entry128 (e.flags flags)
  | .entry128 e, .clearFlags => .entry128 e.clearFlags
  | .entry128 e, .userData userData => .entry128 (e.userData userData)
  | .entry128 e, .setUserData userData => .entry128 (e.setUserData userData)
  | .entry128 e, .personality personality => .entry128 (e.personality personality)

/-- A chain of setter calls. -/
def applyAll (built : Built) (setters : List Setter) : Built := setters.foldl apply built

end Built

end IoUring.Squeue
