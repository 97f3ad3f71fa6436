import IoUring.Foundation.Packed
import IoUring.Opcode.FileSlot
import IoUring.Opcode.TwoFiles

/-!
# The request that an entry stands for

Reading an entry back into the arguments of its builder. Where builders share an
opcode, bits of the entry tell them apart. Some arguments do not reach the entry
as they are, and some requests are spelled in two ways: `normal` is the request
that is read back.
-/

namespace IoUring.Opcode

open Foundation Squeue IoUring.Types

/-- The operation with this code. -/
def operation (code : UInt8) : Option Sys.IoringOp :=
  if code.toNat ≤ Sys.IoringOp.pipe.ctorIdx then some (.ofNat code.toNat) else none

/-- A multishot or bundled request asks for buffers of a group by itself. -/
def selects (sqe : Sqe) : Bool := sqe.flags &&& Flags.bufferSelect != 0

/-- `addr3` and `optval`. -/
def wordOf (cmd : Vector UInt8 16) : UInt64 := .ofNat (Packed.spelled (cmd.toList.take 8))

def slotOf (fileIndex : UInt32) : Option DestinationSlot :=
  if h : fileIndex ≠ 0 then some ⟨fileIndex, h⟩ else none

/-! ## Operations with several builders -/

def recvmsgOf (sqe : Sqe) : Op :=
  if selects sqe then
    .recvMsgMulti
      { fd := sqe.file
        msg := sqe.addr
        bufGroup := sqe.bufIndex
        ioprio := sqe.ioprio
        flags := sqe.opFlags }
  else
    .recvMsg
      { fd := sqe.file
        msg := sqe.addr
        ioprio := sqe.ioprio
        flags := sqe.opFlags
        bufGroup := sqe.bufIndex }

def recvOf (sqe : Sqe) : Op :=
  if selects sqe then
    if sqe.ioprio = Sys.ioringRecvMultishot then
      .recvMulti
        { fd := sqe.file
          bufGroup := sqe.bufIndex
          flags := sqe.opFlags.toInt32
          len := sqe.len }
    else if sqe.ioprio = Sys.ioringRecvsendBundle then
      .recvBundle { fd := sqe.file, bufGroup := sqe.bufIndex, flags := sqe.opFlags.toInt32 }
    else
      .recvMultiBundle { fd := sqe.file, bufGroup := sqe.bufIndex, flags := sqe.opFlags.toInt32 }
  else
    .recv
      { fd := sqe.file
        buf := sqe.addr
        len := sqe.len
        ioprio := sqe.ioprio
        flags := sqe.opFlags.toInt32
        bufGroup := sqe.bufIndex }

def sendOf (sqe : Sqe) : Op :=
  if selects sqe then
    .sendBundle
      { fd := sqe.file
        bufGroup := sqe.bufIndex
        flags := sqe.opFlags.toInt32
        len := sqe.len }
  else
    .send
      { fd := sqe.file
        buf := sqe.addr
        len := sqe.len
        ioprio := sqe.ioprio
        flags := sqe.opFlags.toInt32
        destAddr := sqe.off
        destAddrLen := sqe.fileIndex.toUInt16.toUInt32 }

def acceptOf (sqe : Sqe) : Op :=
  if sqe.ioprio = Sys.ioringAcceptMultishot then
    .acceptMulti
      { fd := sqe.file
        allocateFileIndex := sqe.fileIndex != 0
        flags := sqe.opFlags.toInt32 }
  else
    .accept
      { fd := sqe.file
        addr := sqe.addr
        addrlen := sqe.off
        fileIndex := slotOf sqe.fileIndex
        flags := sqe.opFlags.toInt32 }

def timeoutRemoveOf (sqe : Sqe) : Op :=
  if sqe.opFlags &&& Sys.ioringTimeoutUpdate ≠ 0 then
    .timeoutUpdate { userData := sqe.addr, timespec := sqe.off, flags := sqe.opFlags }
  else .timeoutRemove { userData := sqe.addr }

def msgRingOf (sqe : Sqe) : Option Op :=
  if sqe.addr = Sys.ioringMsgData then
    some (.msgRingData
      { ringFd := sqe.fd
        result := sqe.len.toInt32
        userData := sqe.off
        userFlags :=
          if sqe.opFlags &&& Sys.ioringMsgRingFlagsPass ≠ 0 then some sqe.fileIndex else none
        opcodeFlags := sqe.opFlags })
  else
    (slotOf sqe.fileIndex).map fun slot => .msgRingSendFd
      { ringFd := sqe.fd
        fixedSlotSrc := ⟨(wordOf sqe.cmd).toUInt32⟩
        destSlotIndex := slot
        userData := sqe.off
        opcodeFlags := sqe.opFlags }

/-- The flags of a command whose other words are zero. -/
def plainCmd (fileIndex opFlags : UInt32) : Prop :=
  fileIndex = 0 ∧ (opFlags = 0 ∨ opFlags = Sys.ioringUringCmdFixed)

instance (fileIndex opFlags : UInt32) : Decidable (plainCmd fileIndex opFlags) :=
  inferInstanceAs (Decidable (_ ∧ _))

/-- The buffer of a command, which only the flag makes one. -/
def cmdBuffer (opFlags : UInt32) (bufIndex : UInt16) : Option UInt16 :=
  if opFlags = Sys.ioringUringCmdFixed then some bufIndex else none

/-- A socket option without length is a command like any other. -/
def uringCmdOf (sqe : Sqe) : Op :=
  if plainCmd sqe.fileIndex sqe.opFlags then
    .uringCmd16
      { fd := sqe.file
        cmdOp := sqe.off.toUInt32
        bufIndex := cmdBuffer sqe.opFlags sqe.bufIndex
        cmd := sqe.cmd
        addr := some sqe.addr }
  else
    .setSockOpt
      { fd := sqe.file
        level := sqe.addr.toUInt32
        optname := (sqe.addr >>> 32).toUInt32
        optval := wordOf sqe.cmd
        optlen := sqe.fileIndex
        flags := sqe.opFlags }

/-- A buffer that is not registered has index zero and no flag. -/
def sendZcBuffer (ioprio bufIndex : UInt16) : Option UInt16 :=
  if ioprio &&& Sys.ioringRecvsendFixedBuf ≠ 0 then some bufIndex else none

/-! ## All operations -/

/-- The request of a small entry. -/
def requestOf (sqe : Sqe) : Sys.IoringOp → Option Op
  | .nop => some (.nop {})
  | .readv => some (.readv
      { fd := sqe.file
        iovec := sqe.addr
        len := sqe.len
        ioprio := sqe.ioprio
        offset := sqe.off
        rwFlags := sqe.opFlags.toInt32
        bufGroup := sqe.bufIndex })
  | .writev => some (.writev
      { fd := sqe.file
        iovec := sqe.addr
        len := sqe.len
        ioprio := sqe.ioprio
        offset := sqe.off
        rwFlags := sqe.opFlags.toInt32 })
  | .fsync => some (.fsync
      { fd := sqe.file, offset := sqe.off, len := sqe.len, flags := sqe.opFlags })
  | .readFixed => some (.readFixed
      { fd := sqe.file
        buf := sqe.addr
        len := sqe.len
        bufIndex := sqe.bufIndex
        ioprio := sqe.ioprio
        offset := sqe.off
        rwFlags := sqe.opFlags.toInt32 })
  | .writeFixed => some (.writeFixed
      { fd := sqe.file
        buf := sqe.addr
        len := sqe.len
        bufIndex := sqe.bufIndex
        ioprio := sqe.ioprio
        offset := sqe.off
        rwFlags := sqe.opFlags.toInt32 })
  | .pollAdd => some (.pollAdd { fd := sqe.file, flags := sqe.opFlags, multi := sqe.len != 0 })
  | .pollRemove => some (.pollRemove { userData := sqe.addr })
  | .syncFileRange => some (.syncFileRange
      { fd := sqe.file, len := sqe.len, offset := sqe.off, flags := sqe.opFlags })
  | .sendmsg => some (.sendMsg
      { fd := sqe.file, msg := sqe.addr, ioprio := sqe.ioprio, flags := sqe.opFlags })
  | .recvmsg => some (recvmsgOf sqe)
  | .timeout => some (.timeout
      { timespec := sqe.addr, count := sqe.off.toUInt32, flags := sqe.opFlags })
  | .timeoutRemove => some (timeoutRemoveOf sqe)
  | .accept => some (acceptOf sqe)
  | .asyncCancel => some (.asyncCancel2 ⟨sqe.opFlags, some sqe.addr, some (.fd sqe.fd)⟩)
  | .linkTimeout => some (.linkTimeout { timespec := sqe.addr, flags := sqe.opFlags })
  | .connect => some (.connect { fd := sqe.file, addr := sqe.addr, addrlen := sqe.off.toUInt32 })
  | .fallocate => some (.fallocate
      { fd := sqe.file, len := sqe.addr, offset := sqe.off, mode := sqe.len.toInt32 })
  | .openat => some (.openAt
      { dirfd := sqe.fd
        pathname := sqe.addr
        fileIndex := slotOf sqe.fileIndex
        flags := sqe.opFlags.toInt32
        mode := sqe.len })
  | .close => some (.close ⟨closeTarget sqe⟩)
  | .filesUpdate => some (.filesUpdate
      { fds := sqe.addr, len := sqe.len, offset := sqe.off.toInt64.toInt32 })
  | .statx => some (.statx
      { dirfd := sqe.fd
        pathname := sqe.addr
        statxbuf := sqe.off
        flags := sqe.opFlags.toInt32
        mask := sqe.len })
  | .read => some (.read
      { fd := sqe.file
        buf := sqe.addr
        len := sqe.len
        offset := sqe.off
        ioprio := sqe.ioprio
        rwFlags := sqe.opFlags.toInt32
        bufGroup := sqe.bufIndex })
  | .write => some (.write
      { fd := sqe.file
        buf := sqe.addr
        len := sqe.len
        offset := sqe.off
        ioprio := sqe.ioprio
        rwFlags := sqe.opFlags.toInt32 })
  | .fadvise => some (.fadvise
      { fd := sqe.file
        len := sqe.len.toUInt64.toInt64
        advice := sqe.opFlags.toInt32
        offset := sqe.off })
  | .madvise => some (.madvise
      { addr := sqe.addr, len := sqe.len.toUInt64.toInt64, advice := sqe.opFlags.toInt32 })
  | .send => some (sendOf sqe)
  | .recv => some (recvOf sqe)
  | .openat2 => some (.openAt2
      { dirfd := sqe.fd
        pathname := sqe.addr
        how := sqe.off
        fileIndex := slotOf sqe.fileIndex })
  | .epollCtl => some (.epollCtl
      { epfd := sqe.file
        fd := sqe.off.toInt64.toInt32
        op := sqe.len.toInt32
        ev := sqe.addr })
  | .splice => some (.splice
      { fdIn := spliceIn sqe
        offIn := sqe.addr.toInt64
        fdOut := sqe.file
        offOut := sqe.off.toInt64
        len := sqe.len
        flags := sqe.opFlags })
  | .provideBuffers => some (.provideBuffers
      { addr := sqe.addr
        len := sqe.len.toInt32
        nbufs := sqe.fd.toUInt32.toUInt16
        bgid := sqe.bufIndex
        bid := sqe.off.toUInt16 })
  | .removeBuffers => some (.removeBuffers
      { nbufs := sqe.fd.toUInt32.toUInt16, bgid := sqe.bufIndex })
  | .tee => some (.tee
      { fdIn := spliceIn sqe, fdOut := sqe.file, len := sqe.len, flags := sqe.opFlags })
  | .shutdown => some (.shutdown { fd := sqe.file, how := sqe.len.toInt32 })
  | .renameat => some (.renameAt
      { olddirfd := sqe.fd
        oldpath := sqe.addr
        newdirfd := sqe.len.toInt32
        newpath := sqe.off
        flags := sqe.opFlags })
  | .unlinkat => some (.unlinkAt
      { dirfd := sqe.fd, pathname := sqe.addr, flags := sqe.opFlags.toInt32 })
  | .mkdirat => some (.mkDirAt { dirfd := sqe.fd, pathname := sqe.addr, mode := sqe.len })
  | .symlinkat => some (.symlinkAt
      { newdirfd := sqe.fd, target := sqe.addr, linkpath := sqe.off })
  | .linkat => some (.linkAt
      { olddirfd := sqe.fd
        oldpath := sqe.addr
        newdirfd := sqe.len.toInt32
        newpath := sqe.off
        flags := sqe.opFlags.toInt32 })
  | .msgRing => msgRingOf sqe
  | .fsetxattr => some (.fSetXattr
      { fd := sqe.file
        name := sqe.addr
        value := sqe.off
        len := sqe.len
        flags := sqe.opFlags.toInt32 })
  | .setxattr => some (.setXattr
      { name := sqe.addr
        value := sqe.off
        path := wordOf sqe.cmd
        len := sqe.len
        flags := sqe.opFlags.toInt32 })
  | .fgetxattr => some (.fGetXattr
      { fd := sqe.file, name := sqe.addr, value := sqe.off, len := sqe.len })
  | .getxattr => some (.getXattr
      { name := sqe.addr, value := sqe.off, path := wordOf sqe.cmd, len := sqe.len })
  | .socket => some (.socket
      { domain := sqe.fd
        socketType := sqe.off.toInt64.toInt32
        protocol := sqe.len.toInt32
        fileIndex := slotOf sqe.fileIndex
        flags := sqe.opFlags.toInt32 })
  | .uringCmd => some (uringCmdOf sqe)
  | .sendZc => some (.sendZc
      { fd := sqe.file
        buf := sqe.addr
        len := sqe.len
        bufIndex := sendZcBuffer sqe.ioprio sqe.bufIndex
        destAddr := sqe.off
        destAddrLen := sqe.fileIndex.toUInt16.toUInt32
        flags := sqe.opFlags.toInt32
        zcFlags := sqe.ioprio })
  | .sendmsgZc => some (.sendMsgZc
      { fd := sqe.file, msg := sqe.addr, ioprio := sqe.ioprio, flags := sqe.opFlags })
  | .readMultishot => some (.readMulti
      { fd := .fd sqe.fd, len := sqe.len, bufGroup := sqe.bufIndex, offset := sqe.off })
  | .waitid => some (.waitId
      { idtype := sqe.len
        id := sqe.fd.toUInt32
        options := sqe.fileIndex.toInt32
        infop := sqe.off
        flags := sqe.opFlags })
  | .futexWait => some (.futexWait
      { futex := sqe.addr
        val := sqe.off
        mask := wordOf sqe.cmd
        futexFlags := sqe.fd.toUInt32
        flags := sqe.opFlags })
  | .futexWake => some (.futexWake
      { futex := sqe.addr
        val := sqe.off
        mask := wordOf sqe.cmd
        futexFlags := sqe.fd.toUInt32
        flags := sqe.opFlags })
  | .futexWaitv => some (.futexWaitV
      { futexv := sqe.addr, nrFutex := sqe.len, flags := sqe.opFlags })
  | .fixedFdInstall => some (.fixedFdInstall
      { fd := ⟨sqe.fd.toUInt32⟩, fileFlags := sqe.opFlags })
  | .ftruncate => some (.ftruncate { fd := sqe.file, len := sqe.off })
  | .bind => some (.bind { fd := sqe.file, addr := sqe.addr, addrlen := sqe.off.toUInt32 })
  | .listen => some (.listen { fd := sqe.file, backlog := sqe.len.toInt32 })
  | .recvZc => some (.recvZc
      { fd := sqe.file, len := sqe.len, ifq := sqe.fileIndex, ioprio := sqe.ioprio })
  | .epollWait => some (.epollWait
      { fd := sqe.file, events := sqe.addr, maxEvents := sqe.len, flags := sqe.opFlags })
  | .readvFixed => some (.readvFixed
      { fd := sqe.file
        iovec := sqe.addr
        len := sqe.len
        bufIndex := sqe.bufIndex
        ioprio := sqe.ioprio
        offset := sqe.off
        rwFlags := sqe.opFlags.toInt32 })
  | .writevFixed => some (.writevFixed
      { fd := sqe.file
        iovec := sqe.addr
        len := sqe.len
        bufIndex := sqe.bufIndex
        ioprio := sqe.ioprio
        offset := sqe.off
        rwFlags := sqe.opFlags.toInt32 })
  | .pipe => some (.pipe
      { fds := sqe.addr, flags := sqe.opFlags, fileIndex := slotOf sqe.fileIndex })

/-- The request of an entry; a big entry is that of a big command. -/
def decode : Built → Option Op
  | .entry e => (operation e.sqe.opcode).bind (requestOf e.sqe)
  | .entry128 e =>
      let sqe := e.entry.sqe
      if sqe.opcode = Sys.IoringOp.uringCmd.code then
        some (.uringCmd80
          { fd := sqe.file
            cmdOp := sqe.off.toUInt32
            bufIndex := cmdBuffer sqe.opFlags sqe.bufIndex
            cmd := sqe.cmd ++ e.rest
            addr := some sqe.addr })
      else none

/-! ## What is read back -/

/-- The input file of a splice by the flag that says how to read it. -/
def normalFdIn (flags : UInt32) : Target → Target × UInt32
  | .fd fd =>
      if flags &&& Sys.spliceFFdInFixed ≠ 0 then (.fixed fd.toUInt32, flags) else (.fd fd, flags)
  | .fixed idx => (.fixed idx, flags ||| Sys.spliceFFdInFixed)

/-- The request that the entry of a request stands for. -/
def Op.normal : Op → Op
  | .recvMsgMulti op => .recvMsgMulti { op with ioprio := op.ioprio ||| Sys.ioringRecvMultishot }
  | .recvZc op => .recvZc { op with ioprio := op.ioprio ||| Sys.ioringRecvMultishot }
  | .timeoutUpdate op => .timeoutUpdate { op with flags := op.flags ||| Sys.ioringTimeoutUpdate }
  | .asyncCancel op => .asyncCancel2 ⟨0, some op.userData, some (.fd (-1))⟩
  | .asyncCancel2 op => .asyncCancel2
      ⟨op.builder.flags, some (op.builder.userData.getD 0), some (.fd op.builder.toFd)⟩
  | .close op => .close ⟨if op.fd = .fixed 0xffffffff then .fd 0 else op.fd⟩
  | .fadvise op => .fadvise { op with len := op.len.toUInt64.toUInt32.toUInt64.toInt64 }
  | .madvise op => .madvise { op with len := op.len.toUInt64.toUInt32.toUInt64.toInt64 }
  | .send op => .send { op with destAddrLen := op.destAddrLen.toUInt16.toUInt32 }
  | .sendZc op => .sendZc
      { op with
        bufIndex :=
          if op.bufIndex.isSome || op.zcFlags &&& Sys.ioringRecvsendFixedBuf != 0 then
            some (op.bufIndex.getD 0)
          else none
        zcFlags :=
          if op.bufIndex.isSome then op.zcFlags ||| Sys.ioringRecvsendFixedBuf else op.zcFlags
        destAddrLen := op.destAddrLen.toUInt16.toUInt32 }
  | .splice op =>
      let (fdIn, flags) := normalFdIn op.flags op.fdIn
      .splice { op with fdIn, flags }
  | .tee op =>
      let (fdIn, flags) := normalFdIn op.flags op.fdIn
      .tee { op with fdIn, flags }
  | .msgRingData op => .msgRingData
      { op with
        userFlags :=
          if op.userFlags.isSome || op.opcodeFlags &&& Sys.ioringMsgRingFlagsPass != 0 then
            some (op.userFlags.getD 0)
          else none
        opcodeFlags :=
          if op.userFlags.isSome then op.opcodeFlags ||| Sys.ioringMsgRingFlagsPass
          else op.opcodeFlags }
  | .readMulti op => .readMulti { op with fd := .fd (fdWord op.fd) }
  | .uringCmd16 op => .uringCmd16 { op with addr := some (op.addr.getD 0) }
  | .uringCmd80 op => .uringCmd80 { op with addr := some (op.addr.getD 0) }
  | .setSockOpt op =>
      if plainCmd op.optlen op.flags then
        .uringCmd16
          { fd := op.fd
            cmdOp := Sys.socketUringOpSetsockopt
            bufIndex := cmdBuffer op.flags 0
            cmd := withWord sqeZeroed.cmd op.optval
            addr := some (withHigh (withLow 0 op.level) op.optname) }
      else .setSockOpt op
  | op => op

end IoUring.Opcode
