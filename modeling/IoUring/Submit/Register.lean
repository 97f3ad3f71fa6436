import IoUring.Submit.Submitter
import IoUring.Types

/-!
# The registration methods of the submitter

Each of them makes one call of `io_uring_register`. The functions here give the
call that is made; `RegisterArg` is what its pointer designates, an address
where that is memory of the caller.
-/

namespace IoUring.Submit

open Sys (IoringRegisterOp)
open IoUring.Types (CancelBuilder)

/-- What the third argument of `io_uring_register` points to. -/
inductive RegisterArg where
  | null
  | memory (addr : UInt64)
  | eventfd (fd : Int32)
  | rsrcUpdate (offset resv : UInt32) (data : UInt64)
  | rsrcUpdate2 (offset resv : UInt32) (data tags : UInt64) (nr resv2 : UInt32)
  | rsrcRegister (nr flags : UInt32) (resv2 data tags : UInt64)
  | cloneBuffers (srcFd flags srcOff dstOff nr : UInt32)
  | filesUpdate (offset resv : UInt32) (fds : UInt64)
  | bufReg (ringAddr : UInt64) (ringEntries : UInt32) (bgid flags : UInt16)
  | napi (busyPollTo : UInt32) (preferBusyPoll opcode : UInt8) (opParam : UInt32)
  | syncCancel (addr : UInt64) (fd : Int32) (flags : UInt32) (tvSec tvNsec : Int64)
      (opcode : UInt8)
  deriving DecidableEq

/-- A call of `io_uring_register`. -/
structure RegisterCall where
  fd : Int32
  opcode : UInt32
  arg : RegisterArg
  nrArgs : UInt32
  deriving DecidableEq

inductive RegisterRing where
  | rawFd (fd : Int32)
  | registeredIndex (index : Int32)

def execute (ring : RegisterRing) (opcode : UInt32) (arg : RegisterArg) (len : UInt32) :
    RegisterCall :=
  let (fd, opcode) :=
    match ring with
    | .rawFd fd => (fd, opcode)
    | .registeredIndex index => (index, opcode ||| Sys.ioringRegisterUseRegisteredRing)
  { fd, opcode, arg, nrArgs := len }

/-- A slice of the caller's: its address and its length. -/
structure Slice where
  addr : UInt64
  len : UInt64

namespace Submitter

variable (s : Submitter)

def registerRing : RegisterRing :=
  let enterRingFd := s.enterRingFd
  if enterRingFd ≥ 0 && s.params.isFeatureRegRegRing then .registeredIndex enterRingFd
  else .rawFd s.fd

def executeRegister (opcode : IoringRegisterOp) (arg : RegisterArg) (len : UInt32) :
    RegisterCall :=
  execute s.registerRing opcode.code arg len

def registerBuffers (bufs : Slice) : RegisterCall :=
  s.executeRegister .registerBuffers (.memory bufs.addr) bufs.len.toUInt32

/-- The last argument is the size of `io_uring_rsrc_update2`. -/
def registerBuffersUpdate (offset : UInt32) (bufs : Slice) (tags : Option Slice) :
    RegisterCall :=
  let nr := tags.elim bufs.len fun tags => min bufs.len tags.len
  s.executeRegister .registerBuffersUpdate
    (.rsrcUpdate2 offset 0 bufs.addr (tags.elim 0 Slice.addr) nr.toUInt32 0) 32

/-- The last argument is the size of `io_uring_rsrc_register`, here and below. -/
def registerBuffers2 (bufs tags : Slice) : RegisterCall :=
  s.executeRegister .registerBuffers2
    (.rsrcRegister (min bufs.len tags.len).toUInt32 0 0 bufs.addr tags.addr) 32

def registerBuffersSparse (nr : UInt32) : RegisterCall :=
  s.executeRegister .registerBuffers2 (.rsrcRegister nr Sys.ioringRsrcRegisterSparse 0 0 0) 32

/-- The one method that passes the raw descriptor also when a ring fd is registered. -/
def registerBuffersCloneOffset (srcFd : Int32) (srcOff dstOff nr flags : UInt32) :
    RegisterCall :=
  execute (.rawFd s.fd) IoringRegisterOp.registerCloneBuffers.code
    (.cloneBuffers srcFd.toUInt32 flags srcOff dstOff nr) 1

def registerBuffersClone (srcFd : Int32) : RegisterCall :=
  s.registerBuffersCloneOffset srcFd 0 0 0 0

def registerFilesSparse (nr : UInt32) : RegisterCall :=
  s.executeRegister .registerFiles2 (.rsrcRegister nr Sys.ioringRsrcRegisterSparse 0 0 0) 32

def registerFiles (fds : Slice) : RegisterCall :=
  s.executeRegister .registerFiles (.memory fds.addr) fds.len.toUInt32

def registerFilesUpdate (offset : UInt32) (fds : Slice) : RegisterCall :=
  s.executeRegister .registerFilesUpdate (.filesUpdate offset 0 fds.addr) fds.len.toUInt32

def registerEventfd (eventfd : Int32) : RegisterCall :=
  s.executeRegister .registerEventfd (.eventfd eventfd) 1

def registerEventfdAsync (eventfd : Int32) : RegisterCall :=
  s.executeRegister .registerEventfdAsync (.eventfd eventfd) 1

/-- The last argument is `Probe::COUNT`. -/
def registerProbe (probe : UInt64) : RegisterCall :=
  s.executeRegister .registerProbe (.memory probe) 256

def registerPersonality : RegisterCall := s.executeRegister .registerPersonality .null 0

def unregisterBuffers : RegisterCall := s.executeRegister .unregisterBuffers .null 0

def unregisterFiles : RegisterCall := s.executeRegister .unregisterFiles .null 0

def unregisterEventfd : RegisterCall := s.executeRegister .unregisterEventfd .null 0

def unregisterPersonality (personality : UInt16) : RegisterCall :=
  s.executeRegister .unregisterPersonality .null personality.toUInt32

def registerRestrictions (res : Slice) : RegisterCall :=
  s.executeRegister .registerRestrictions (.memory res.addr) res.len.toUInt32

def registerEnableRings : RegisterCall := s.executeRegister .registerEnableRings .null 0

/-- The last argument is the size of `libc::cpu_set_t`. -/
def registerIowqAff (cpuSet : UInt64) : RegisterCall :=
  s.executeRegister .registerIowqAff (.memory cpuSet) 128

def unregisterIowqAff : RegisterCall := s.executeRegister .unregisterIowqAff .null 0

def registerIowqMaxWorkers (max : UInt64) : RegisterCall :=
  s.executeRegister .registerIowqMaxWorkers (.memory max) 2

def registerNapi (napi : UInt64) : RegisterCall :=
  s.executeRegister .registerNapi (.memory napi) 1

def unregisterNapi (napi : UInt64) : RegisterCall :=
  s.executeRegister .unregisterNapi (.memory napi) 1

def registerNapiStaticOp (opcode : UInt8) (napiId : UInt32) : RegisterCall :=
  s.executeRegister .registerNapi (.napi 0 0 opcode napiId) 1

def registerNapiAddId (napiId : UInt32) : RegisterCall :=
  s.registerNapiStaticOp Sys.ioUringNapiStaticAddId napiId

def registerNapiDelId (napiId : UInt32) : RegisterCall :=
  s.registerNapiStaticOp Sys.ioUringNapiStaticDelId napiId

def registerBufRingWithFlags (ringAddr : UInt64) (ringEntries bgid flags : UInt16) :
    RegisterCall :=
  s.executeRegister .registerPbufRing (.bufReg ringAddr ringEntries.toUInt32 bgid flags) 1

def registerBufRing (ringAddr : UInt64) (ringEntries bgid : UInt16) : RegisterCall :=
  s.registerBufRingWithFlags ringAddr ringEntries bgid 0

def unregisterBufRing (bgid : UInt16) : RegisterCall :=
  s.executeRegister .unregisterPbufRing (.bufReg 0 0 bgid 0) 1

/-- The timeout is a `Timespec`, its seconds and nanoseconds. -/
def registerSyncCancel (timeout : Option (Int64 × Int64)) (builder : CancelBuilder) :
    RegisterCall :=
  let timespec := timeout.getD (-1, -1)
  s.executeRegister .registerSyncCancel
    (.syncCancel (builder.userData.getD 0) builder.toFd builder.flags timespec.1 timespec.2 0) 1

def registerIfq (reg : UInt64) : RegisterCall :=
  s.executeRegister .registerZcrxIfq (.memory reg) 1

end Submitter

end IoUring.Submit
