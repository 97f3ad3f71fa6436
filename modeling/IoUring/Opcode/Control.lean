import IoUring.Opcode.Basic

/-!
# Builders of polling, timeouts, cancellation, messages and commands
-/

namespace IoUring.Opcode

open Squeue IoUring.Types

/-- Do not perform any I/O. -/
structure Nop where

def Nop.build (_op : Nop) : Entry where
  sqe := sqeFor .nop (-1)

/-- Poll the specified fd. -/
structure PollAdd where
  fd : Target
  flags : UInt32
  multi : Bool := false

/-- On a little-endian target the events are stored as they are. -/
def PollAdd.build (op : PollAdd) : Entry where
  sqe :=
    let sqe := sqeForFile .pollAdd op.fd
    { sqe with
      len := if op.multi then Sys.ioringPollAddMulti else sqe.len
      opFlags := op.flags }

/-- Remove an existing poll request. -/
structure PollRemove where
  userData : UInt64

def PollRemove.build (op : PollRemove) : Entry where
  sqe := { sqeFor .pollRemove (-1) with addr := op.userData }

/-- Register a timeout operation. -/
structure Timeout where
  timespec : UInt64
  count : UInt32 := 0
  flags : UInt32 := 0

def Timeout.build (op : Timeout) : Entry where
  sqe := { sqeFor .timeout (-1) with
    addr := op.timespec
    len := 1
    off := op.count.toUInt64
    opFlags := op.flags }

/-- Attempt to remove an existing timeout operation. -/
structure TimeoutRemove where
  userData : UInt64

def TimeoutRemove.build (op : TimeoutRemove) : Entry where
  sqe := { sqeFor .timeoutRemove (-1) with addr := op.userData }

/-- Attempt to update an existing timeout operation with a new timespec. -/
structure TimeoutUpdate where
  userData : UInt64
  timespec : UInt64
  flags : UInt32 := 0

def TimeoutUpdate.build (op : TimeoutUpdate) : Entry where
  sqe := { sqeFor .timeoutRemove (-1) with
    off := op.timespec
    addr := op.userData
    opFlags := op.flags ||| Sys.ioringTimeoutUpdate }

/-- Attempt to cancel an already issued request. -/
structure AsyncCancel where
  userData : UInt64

def AsyncCancel.build (op : AsyncCancel) : Entry where
  sqe := { sqeFor .asyncCancel (-1) with addr := op.userData }

/-- A timeout that acts on the linked request, not the completion queue. -/
structure LinkTimeout where
  timespec : UInt64
  flags : UInt32 := 0

def LinkTimeout.build (op : LinkTimeout) : Entry where
  sqe := { sqeFor .linkTimeout (-1) with
    addr := op.timespec
    len := 1
    opFlags := op.flags }

/-- Attempt to cancel an already issued request, described by a `CancelBuilder`. -/
structure AsyncCancel2 where
  builder : CancelBuilder

def AsyncCancel2.build (op : AsyncCancel2) : Entry where
  sqe := { sqeFor .asyncCancel op.builder.toFd with
    addr := op.builder.userData.getD 0
    opFlags := op.builder.flags }

/-- Modify an epoll file descriptor, equivalent to `epoll_ctl(2)`. -/
structure EpollCtl where
  epfd : Target
  fd : Int32
  op : Int32
  ev : UInt64

def EpollCtl.build (op : EpollCtl) : Entry where
  sqe := { sqeForFile .epollCtl op.epfd with
    addr := op.ev
    len := op.op.toUInt32
    off := op.fd.toInt64.toUInt64 }

/-- Issue the equivalent of a `epoll_wait(2)` system call. -/
structure EpollWait where
  fd : Target
  events : UInt64
  maxEvents : UInt32
  flags : UInt32 := 0

def EpollWait.build (op : EpollWait) : Entry where
  sqe := { sqeForFile .epollWait op.fd with
    addr := op.events
    len := op.maxEvents
    opFlags := op.flags }

/-- Register `nbufs` buffers with ids starting from `bid` in the group `bgid`. -/
structure ProvideBuffers where
  addr : UInt64
  len : Int32
  nbufs : UInt16
  bgid : UInt16
  bid : UInt16

def ProvideBuffers.build (op : ProvideBuffers) : Entry where
  sqe := { sqeFor .provideBuffers op.nbufs.toUInt32.toInt32 with
    addr := op.addr
    len := op.len.toUInt32
    off := op.bid.toUInt64
    bufIndex := op.bgid }

/-- Remove some number of buffers from a buffer group. -/
structure RemoveBuffers where
  nbufs : UInt16
  bgid : UInt16

def RemoveBuffers.build (op : RemoveBuffers) : Entry where
  sqe := { sqeFor .removeBuffers op.nbufs.toUInt32.toInt32 with bufIndex := op.bgid }

/-- Send a message (with data) to a target ring. -/
structure MsgRingData where
  ringFd : Int32
  result : Int32
  userData : UInt64
  userFlags : Option UInt32
  opcodeFlags : UInt32 := 0

def MsgRingData.build (op : MsgRingData) : Entry where
  sqe :=
    let sqe := { sqeFor .msgRing op.ringFd with
      addr := Sys.ioringMsgData
      len := op.result.toUInt32
      off := op.userData
      opFlags := op.opcodeFlags }
    match op.userFlags with
    | some flags =>
        { sqe with
          fileIndex := flags
          opFlags := sqe.opFlags ||| Sys.ioringMsgRingFlagsPass }
    | none => sqe

/-- Send a message (with fixed FD) to a target ring. -/
structure MsgRingSendFd where
  ringFd : Int32
  fixedSlotSrc : Fixed
  destSlotIndex : DestinationSlot
  userData : UInt64
  opcodeFlags : UInt32 := 0

def MsgRingSendFd.build (op : MsgRingSendFd) : Entry where
  sqe := { sqeFor .msgRing op.ringFd with
    addr := Sys.ioringMsgSendFd
    off := op.userData
    cmd := withWord sqeZeroed.cmd op.fixedSlotSrc.idx.toUInt64
    fileIndex := op.destSlotIndex.kernelIndexArg
    opFlags := op.opcodeFlags }

/-- The optional arguments that both sizes of command share. -/
def setCmdOptions (sqe : Sqe) (bufIndex : Option UInt16) (addr : Option UInt64) : Sqe :=
  let sqe :=
    match bufIndex with
    | some bufIndex =>
        { sqe with
          bufIndex := bufIndex
          opFlags := sqe.opFlags ||| Sys.ioringUringCmdFixed }
    | none => sqe
  match addr with
  | some addr => { sqe with addr := addr }
  | none => sqe

@[simp] theorem setCmdOptions_fd (sqe : Sqe) (bufIndex : Option UInt16) (addr : Option UInt64) :
    (setCmdOptions sqe bufIndex addr).fd = sqe.fd := by
  cases bufIndex <;> cases addr <;> rfl

@[simp] theorem setCmdOptions_flags (sqe : Sqe) (bufIndex : Option UInt16)
    (addr : Option UInt64) : (setCmdOptions sqe bufIndex addr).flags = sqe.flags := by
  cases bufIndex <;> cases addr <;> rfl

/-- A file/device-specific 16-byte command, akin (but not equivalent) to `ioctl(2)`. -/
structure UringCmd16 where
  fd : Target
  cmdOp : UInt32
  bufIndex : Option UInt16 := none
  cmd : Vector UInt8 16 := Vector.replicate 16 0
  addr : Option UInt64 := none

def UringCmd16.build (op : UringCmd16) : Entry where
  sqe :=
    let sqe := sqeForFile .uringCmd op.fd
    setCmdOptions { sqe with
      off := withLow sqe.off op.cmdOp
      cmd := op.cmd } op.bufIndex op.addr

/-- A file/device-specific 80-byte command, akin (but not equivalent) to `ioctl(2)`. -/
structure UringCmd80 where
  fd : Target
  cmdOp : UInt32
  bufIndex : Option UInt16 := none
  cmd : Vector UInt8 80 := Vector.replicate 80 0
  addr : Option UInt64 := none

def UringCmd80.build (op : UringCmd80) : Entry128 where
  entry.sqe :=
    let sqe := sqeForFile .uringCmd op.fd
    setCmdOptions { sqe with
      off := withLow sqe.off op.cmdOp
      cmd := op.cmd.take 16 } op.bufIndex op.addr
  rest := op.cmd.drop 16

/-- Wait on a futex. -/
structure FutexWait where
  futex : UInt64
  val : UInt64
  mask : UInt64
  futexFlags : UInt32
  flags : UInt32 := 0

def FutexWait.build (op : FutexWait) : Entry where
  sqe := { sqeFor .futexWait op.futexFlags.toInt32 with
    addr := op.futex
    off := op.val
    cmd := withWord sqeZeroed.cmd op.mask
    opFlags := op.flags }

/-- Wake up waiters on a futex. -/
structure FutexWake where
  futex : UInt64
  val : UInt64
  mask : UInt64
  futexFlags : UInt32
  flags : UInt32 := 0

def FutexWake.build (op : FutexWake) : Entry where
  sqe := { sqeFor .futexWake op.futexFlags.toInt32 with
    addr := op.futex
    off := op.val
    cmd := withWord sqeZeroed.cmd op.mask
    opFlags := op.flags }

/-- Wait on multiple futexes. -/
structure FutexWaitV where
  futexv : UInt64
  nrFutex : UInt32
  flags : UInt32 := 0

def FutexWaitV.build (op : FutexWaitV) : Entry where
  sqe := { sqeFor .futexWaitv 0 with
    addr := op.futexv
    len := op.nrFutex
    opFlags := op.flags }

/-- Issue the equivalent of a `waitid(2)` system call. -/
structure WaitId where
  idtype : UInt32
  id : UInt32
  options : Int32
  infop : UInt64 := 0
  flags : UInt32 := 0

def WaitId.build (op : WaitId) : Entry where
  sqe := { sqeFor .waitid op.id.toInt32 with
    len := op.idtype
    opFlags := op.flags
    fileIndex := op.options.toUInt32
    off := op.infop }

end IoUring.Opcode
