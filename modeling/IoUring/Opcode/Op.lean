import IoUring.Opcode.File
import IoUring.Opcode.Net
import IoUring.Opcode.Control

/-!
# All operations

One value of `Op` for each call of a builder, in the order of `opcode.rs`.
-/

namespace IoUring.Opcode

open Squeue IoUring.Types

inductive Op where
  | nop (op : Nop)
  | readv (op : Readv)
  | writev (op : Writev)
  | fsync (op : Fsync)
  | readFixed (op : ReadFixed)
  | writeFixed (op : WriteFixed)
  | pollAdd (op : PollAdd)
  | pollRemove (op : PollRemove)
  | syncFileRange (op : SyncFileRange)
  | sendMsg (op : SendMsg)
  | recvMsg (op : RecvMsg)
  | recvMsgMulti (op : RecvMsgMulti)
  | timeout (op : Timeout)
  | timeoutRemove (op : TimeoutRemove)
  | timeoutUpdate (op : TimeoutUpdate)
  | accept (op : Accept)
  | setSockOpt (op : SetSockOpt)
  | asyncCancel (op : AsyncCancel)
  | linkTimeout (op : LinkTimeout)
  | connect (op : Connect)
  | fallocate (op : Fallocate)
  | openAt (op : OpenAt)
  | close (op : Close)
  | filesUpdate (op : FilesUpdate)
  | statx (op : Statx)
  | read (op : Read)
  | write (op : Write)
  | fadvise (op : Fadvise)
  | madvise (op : Madvise)
  | send (op : Send)
  | recv (op : Recv)
  | recvMulti (op : RecvMulti)
  | openAt2 (op : OpenAt2)
  | epollCtl (op : EpollCtl)
  | splice (op : Splice)
  | provideBuffers (op : ProvideBuffers)
  | removeBuffers (op : RemoveBuffers)
  | tee (op : Tee)
  | shutdown (op : Shutdown)
  | renameAt (op : RenameAt)
  | unlinkAt (op : UnlinkAt)
  | mkDirAt (op : MkDirAt)
  | symlinkAt (op : SymlinkAt)
  | linkAt (op : LinkAt)
  | getXattr (op : GetXattr)
  | setXattr (op : SetXattr)
  | fGetXattr (op : FGetXattr)
  | fSetXattr (op : FSetXattr)
  | msgRingData (op : MsgRingData)
  | asyncCancel2 (op : AsyncCancel2)
  | uringCmd16 (op : UringCmd16)
  | uringCmd80 (op : UringCmd80)
  | socket (op : Socket)
  | acceptMulti (op : AcceptMulti)
  | msgRingSendFd (op : MsgRingSendFd)
  | sendZc (op : SendZc)
  | sendMsgZc (op : SendMsgZc)
  | readMulti (op : ReadMulti)
  | futexWait (op : FutexWait)
  | futexWake (op : FutexWake)
  | futexWaitV (op : FutexWaitV)
  | waitId (op : WaitId)
  | fixedFdInstall (op : FixedFdInstall)
  | ftruncate (op : Ftruncate)
  | sendBundle (op : SendBundle)
  | recvBundle (op : RecvBundle)
  | recvMultiBundle (op : RecvMultiBundle)
  | bind (op : Bind)
  | listen (op : Listen)
  | recvZc (op : RecvZc)
  | epollWait (op : EpollWait)
  | readvFixed (op : ReadvFixed)
  | writevFixed (op : WritevFixed)
  | pipe (op : Pipe)

namespace Op

/-- The entry the builder of the operation returns. -/
def build : Op → Built
  | .nop op => .entry op.build
  | .readv op => .entry op.build
  | .writev op => .entry op.build
  | .fsync op => .entry op.build
  | .readFixed op => .entry op.build
  | .writeFixed op => .entry op.build
  | .pollAdd op => .entry op.build
  | .pollRemove op => .entry op.build
  | .syncFileRange op => .entry op.build
  | .sendMsg op => .entry op.build
  | .recvMsg op => .entry op.build
  | .recvMsgMulti op => .entry op.build
  | .timeout op => .entry op.build
  | .timeoutRemove op => .entry op.build
  | .timeoutUpdate op => .entry op.build
  | .accept op => .entry op.build
  | .setSockOpt op => .entry op.build
  | .asyncCancel op => .entry op.build
  | .linkTimeout op => .entry op.build
  | .connect op => .entry op.build
  | .fallocate op => .entry op.build
  | .openAt op => .entry op.build
  | .close op => .entry op.build
  | .filesUpdate op => .entry op.build
  | .statx op => .entry op.build
  | .read op => .entry op.build
  | .write op => .entry op.build
  | .fadvise op => .entry op.build
  | .madvise op => .entry op.build
  | .send op => .entry op.build
  | .recv op => .entry op.build
  | .recvMulti op => .entry op.build
  | .openAt2 op => .entry op.build
  | .epollCtl op => .entry op.build
  | .splice op => .entry op.build
  | .provideBuffers op => .entry op.build
  | .removeBuffers op => .entry op.build
  | .tee op => .entry op.build
  | .shutdown op => .entry op.build
  | .renameAt op => .entry op.build
  | .unlinkAt op => .entry op.build
  | .mkDirAt op => .entry op.build
  | .symlinkAt op => .entry op.build
  | .linkAt op => .entry op.build
  | .getXattr op => .entry op.build
  | .setXattr op => .entry op.build
  | .fGetXattr op => .entry op.build
  | .fSetXattr op => .entry op.build
  | .msgRingData op => .entry op.build
  | .asyncCancel2 op => .entry op.build
  | .uringCmd16 op => .entry op.build
  | .uringCmd80 op => .entry128 op.build
  | .socket op => .entry op.build
  | .acceptMulti op => .entry op.build
  | .msgRingSendFd op => .entry op.build
  | .sendZc op => .entry op.build
  | .sendMsgZc op => .entry op.build
  | .readMulti op => .entry op.build
  | .futexWait op => .entry op.build
  | .futexWake op => .entry op.build
  | .futexWaitV op => .entry op.build
  | .waitId op => .entry op.build
  | .fixedFdInstall op => .entry op.build
  | .ftruncate op => .entry op.build
  | .sendBundle op => .entry op.build
  | .recvBundle op => .entry op.build
  | .recvMultiBundle op => .entry op.build
  | .bind op => .entry op.build
  | .listen op => .entry op.build
  | .recvZc op => .entry op.build
  | .epollWait op => .entry op.build
  | .readvFixed op => .entry op.build
  | .writevFixed op => .entry op.build
  | .pipe op => .entry op.build

/-- The file argument that lands in `sqe.fd`, when it is `impl sealed::UseFixed`.
`Close` takes one, but stores an index elsewhere. -/
def file : Op → Option Target
  | .readv op => some op.fd
  | .writev op => some op.fd
  | .fsync op => some op.fd
  | .readFixed op => some op.fd
  | .writeFixed op => some op.fd
  | .pollAdd op => some op.fd
  | .syncFileRange op => some op.fd
  | .sendMsg op => some op.fd
  | .recvMsg op => some op.fd
  | .recvMsgMulti op => some op.fd
  | .accept op => some op.fd
  | .setSockOpt op => some op.fd
  | .connect op => some op.fd
  | .fallocate op => some op.fd
  | .read op => some op.fd
  | .write op => some op.fd
  | .fadvise op => some op.fd
  | .send op => some op.fd
  | .recv op => some op.fd
  | .recvMulti op => some op.fd
  | .epollCtl op => some op.epfd
  | .splice op => some op.fdOut
  | .tee op => some op.fdOut
  | .shutdown op => some op.fd
  | .fGetXattr op => some op.fd
  | .fSetXattr op => some op.fd
  | .uringCmd16 op => some op.fd
  | .uringCmd80 op => some op.fd
  | .acceptMulti op => some op.fd
  | .sendZc op => some op.fd
  | .sendMsgZc op => some op.fd
  | .readMulti op => some op.fd
  | .ftruncate op => some op.fd
  | .sendBundle op => some op.fd
  | .recvBundle op => some op.fd
  | .recvMultiBundle op => some op.fd
  | .bind op => some op.fd
  | .listen op => some op.fd
  | .recvZc op => some op.fd
  | .epollWait op => some op.fd
  | .readvFixed op => some op.fd
  | .writevFixed op => some op.fd
  | _ => none

end Op

end IoUring.Opcode
