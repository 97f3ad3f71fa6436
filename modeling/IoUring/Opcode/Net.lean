import IoUring.Opcode.Basic

/-!
# Builders of socket operations
-/

namespace IoUring.Opcode

open Squeue IoUring.Types

/-- Send a message on a socket, equivalent to `send(2)`. -/
structure SendMsg where
  fd : Target
  msg : UInt64
  ioprio : UInt16 := 0
  flags : UInt32 := 0

def SendMsg.build (op : SendMsg) : Entry where
  sqe := { sqeForFile .sendmsg op.fd with
    ioprio := op.ioprio
    addr := op.msg
    len := 1
    opFlags := op.flags }

/-- Receive a message on a socket, equivalent to `recvmsg(2)`. -/
structure RecvMsg where
  fd : Target
  msg : UInt64
  ioprio : UInt16 := 0
  flags : UInt32 := 0
  bufGroup : UInt16 := 0

def RecvMsg.build (op : RecvMsg) : Entry where
  sqe := { sqeForFile .recvmsg op.fd with
    ioprio := op.ioprio
    addr := op.msg
    len := 1
    opFlags := op.flags
    bufIndex := op.bufGroup }

/-- Receive multiple messages on a socket, equivalent to `recvmsg(2)`. -/
structure RecvMsgMulti where
  fd : Target
  msg : UInt64
  bufGroup : UInt16
  ioprio : UInt16 := 0
  flags : UInt32 := 0

def RecvMsgMulti.build (op : RecvMsgMulti) : Entry where
  sqe :=
    let sqe := sqeForFile .recvmsg op.fd
    { sqe with
      addr := op.msg
      len := 1
      opFlags := op.flags
      bufIndex := op.bufGroup
      flags := sqe.flags ||| Flags.bufferSelect
      ioprio := op.ioprio ||| Sys.ioringRecvMultishot }

/-- Accept a new connection on a socket, equivalent to `accept4(2)`. -/
structure Accept where
  fd : Target
  addr : UInt64
  addrlen : UInt64
  fileIndex : Option DestinationSlot := none
  flags : Int32 := 0

def Accept.build (op : Accept) : Entry where
  sqe := setFileIndex { sqeForFile .accept op.fd with
    addr := op.addr
    off := op.addrlen
    opFlags := op.flags.toUInt32 } op.fileIndex

/-- Set a socket option. -/
structure SetSockOpt where
  fd : Target
  level : UInt32
  optname : UInt32
  optval : UInt64
  optlen : UInt32
  flags : UInt32 := 0

def SetSockOpt.build (op : SetSockOpt) : Entry where
  sqe :=
    let sqe := sqeForFile .uringCmd op.fd
    { sqe with
      off := withLow sqe.off Sys.socketUringOpSetsockopt
      addr := withHigh (withLow sqe.addr op.level) op.optname
      opFlags := op.flags
      fileIndex := op.optlen
      cmd := withWord sqe.cmd op.optval }

/-- Connect a socket, equivalent to `connect(2)`. -/
structure Connect where
  fd : Target
  addr : UInt64
  addrlen : UInt32

def Connect.build (op : Connect) : Entry where
  sqe := { sqeForFile .connect op.fd with
    addr := op.addr
    off := op.addrlen.toUInt64 }

/-- Send a message on a socket, equivalent to `send(2)`. -/
structure Send where
  fd : Target
  buf : UInt64
  len : UInt32
  ioprio : UInt16 := 0
  flags : Int32 := 0
  destAddr : UInt64 := 0
  destAddrLen : UInt32 := 0

def Send.build (op : Send) : Entry where
  sqe :=
    let sqe := sqeForFile .send op.fd
    { sqe with
      addr := op.buf
      off := op.destAddr
      fileIndex := withLow16 sqe.fileIndex op.destAddrLen.toUInt16
      len := op.len
      ioprio := op.ioprio
      opFlags := op.flags.toUInt32 }

/-- Receive a message from a socket, equivalent to `recv(2)`. -/
structure Recv where
  fd : Target
  buf : UInt64
  len : UInt32
  ioprio : UInt16 := 0
  flags : Int32 := 0
  bufGroup : UInt16 := 0

def Recv.build (op : Recv) : Entry where
  sqe := { sqeForFile .recv op.fd with
    addr := op.buf
    len := op.len
    ioprio := op.ioprio
    opFlags := op.flags.toUInt32
    bufIndex := op.bufGroup }

/-- Receive multiple messages from a socket, equivalent to `recv(2)`. -/
structure RecvMulti where
  fd : Target
  bufGroup : UInt16
  flags : Int32 := 0
  len : UInt32 := 0

def RecvMulti.build (op : RecvMulti) : Entry where
  sqe :=
    let sqe := sqeForFile .recv op.fd
    { sqe with
      len := op.len
      opFlags := op.flags.toUInt32
      bufIndex := op.bufGroup
      flags := sqe.flags ||| Flags.bufferSelect
      ioprio := Sys.ioringRecvMultishot }

/-- Shut down all or part of a full duplex connection on a socket. -/
structure Shutdown where
  fd : Target
  how : Int32

def Shutdown.build (op : Shutdown) : Entry where
  sqe := { sqeForFile .shutdown op.fd with len := op.how.toUInt32 }

/-- Create an endpoint for communication, equivalent to `socket(2)`. -/
structure Socket where
  domain : Int32
  socketType : Int32
  protocol : Int32
  fileIndex : Option DestinationSlot := none
  flags : Int32 := 0

def Socket.build (op : Socket) : Entry where
  sqe := setFileIndex { sqeFor .socket op.domain with
    off := op.socketType.toInt64.toUInt64
    len := op.protocol.toUInt32
    opFlags := op.flags.toUInt32 } op.fileIndex

/-- Accept multiple new connections on a socket. -/
structure AcceptMulti where
  fd : Target
  allocateFileIndex : Bool := false
  flags : Int32 := 0

def AcceptMulti.build (op : AcceptMulti) : Entry where
  sqe :=
    let sqe := sqeForFile .accept op.fd
    { sqe with
      ioprio := Sys.ioringAcceptMultishot
      opFlags := op.flags.toUInt32
      fileIndex :=
        if op.allocateFileIndex then Sys.ioringFileIndexAlloc.toUInt32 else sqe.fileIndex }

/-- Send a zerocopy message on a socket, equivalent to `send(2)`. -/
structure SendZc where
  fd : Target
  buf : UInt64
  len : UInt32
  bufIndex : Option UInt16 := none
  destAddr : UInt64 := 0
  destAddrLen : UInt32 := 0
  flags : Int32 := 0
  zcFlags : UInt16 := 0

def SendZc.build (op : SendZc) : Entry where
  sqe :=
    let sqe := { sqeForFile .sendZc op.fd with
      addr := op.buf
      len := op.len
      opFlags := op.flags.toUInt32
      ioprio := op.zcFlags }
    let sqe :=
      match op.bufIndex with
      | some bufIndex =>
          { sqe with
            bufIndex := bufIndex
            ioprio := sqe.ioprio ||| Sys.ioringRecvsendFixedBuf }
      | none => sqe
    { sqe with
      off := op.destAddr
      fileIndex := withLow16 sqe.fileIndex op.destAddrLen.toUInt16 }

theorem SendZc.build_fd (op : SendZc) : op.build.sqe.fd = fdWord op.fd := by
  cases hbuf : op.bufIndex <;> simp [SendZc.build, hbuf]

theorem SendZc.build_flags (op : SendZc) : op.build.sqe.flags = fdFlags op.fd := by
  cases hbuf : op.bufIndex <;> simp [SendZc.build, hbuf]

/-- Send a zerocopy message on a socket, equivalent to `send(2)`. -/
structure SendMsgZc where
  fd : Target
  msg : UInt64
  ioprio : UInt16 := 0
  flags : UInt32 := 0

def SendMsgZc.build (op : SendMsgZc) : Entry where
  sqe := { sqeForFile .sendmsgZc op.fd with
    ioprio := op.ioprio
    addr := op.msg
    len := 1
    opFlags := op.flags }

/-- Send a bundle of messages on a socket in a single request. -/
structure SendBundle where
  fd : Target
  bufGroup : UInt16
  flags : Int32 := 0
  len : UInt32 := 0

def SendBundle.build (op : SendBundle) : Entry where
  sqe :=
    let sqe := sqeForFile .send op.fd
    { sqe with
      len := op.len
      opFlags := op.flags.toUInt32
      ioprio := sqe.ioprio ||| Sys.ioringRecvsendBundle
      flags := sqe.flags ||| Flags.bufferSelect
      bufIndex := op.bufGroup }

/-- Receive a bundle of buffers from a socket. -/
structure RecvBundle where
  fd : Target
  bufGroup : UInt16
  flags : Int32 := 0

def RecvBundle.build (op : RecvBundle) : Entry where
  sqe :=
    let sqe := sqeForFile .recv op.fd
    { sqe with
      opFlags := op.flags.toUInt32
      bufIndex := op.bufGroup
      flags := sqe.flags ||| Flags.bufferSelect
      ioprio := sqe.ioprio ||| Sys.ioringRecvsendBundle }

/-- Receive multiple messages from a socket as a bundle. -/
structure RecvMultiBundle where
  fd : Target
  bufGroup : UInt16
  flags : Int32 := 0

def RecvMultiBundle.build (op : RecvMultiBundle) : Entry where
  sqe :=
    let sqe := sqeForFile .recv op.fd
    { sqe with
      opFlags := op.flags.toUInt32
      bufIndex := op.bufGroup
      flags := sqe.flags ||| Flags.bufferSelect
      ioprio := Sys.ioringRecvMultishot ||| Sys.ioringRecvsendBundle }

/-- Bind a socket, equivalent to `bind(2)`. -/
structure Bind where
  fd : Target
  addr : UInt64
  addrlen : UInt32

def Bind.build (op : Bind) : Entry where
  sqe := { sqeForFile .bind op.fd with
    addr := op.addr
    off := op.addrlen.toUInt64 }

/-- Listen on a socket, equivalent to `listen(2)`. -/
structure Listen where
  fd : Target
  backlog : Int32

def Listen.build (op : Listen) : Entry where
  sqe := { sqeForFile .listen op.fd with len := op.backlog.toUInt32 }

/-- Issue the zerocopy equivalent of a `recv(2)` system call. -/
structure RecvZc where
  fd : Target
  len : UInt32
  ifq : UInt32 := 0
  ioprio : UInt16 := 0

def RecvZc.build (op : RecvZc) : Entry where
  sqe := { sqeForFile .recvZc op.fd with
    len := op.len
    ioprio := op.ioprio ||| Sys.ioringRecvMultishot
    fileIndex := op.ifq }

end IoUring.Opcode
