/-!
# Constants of the kernel interface

The values that `sys.rs` fixes, under its names. They agree on all five
prebuilt architectures.
-/

namespace IoUring.Sys

/-- `IORING_SQ_*`: bits of the submission ring's flags word. -/
def ioringSqNeedWakeup : UInt32 := 1
def ioringSqCqOverflow : UInt32 := 2

/-- `IORING_CQE_*`: bits of a completion's flags; the id of a buffer lies above them. -/
def ioringCqeFBuffer : UInt32 := 1
def ioringCqeFMore : UInt32 := 2
def ioringCqeFSockNonempty : UInt32 := 4
def ioringCqeFNotif : UInt32 := 8
def ioringCqeFBufMore : UInt32 := 16
def ioringCqeBufferShift : UInt32 := 16

/-- `IORING_SETUP_*`: bits of the parameters' flags word. -/
def ioringSetupIopoll : UInt32 := 1
def ioringSetupSqpoll : UInt32 := 2
def ioringSetupSqAff : UInt32 := 4
def ioringSetupCqsize : UInt32 := 8
def ioringSetupClamp : UInt32 := 16
def ioringSetupAttachWq : UInt32 := 32
def ioringSetupRDisabled : UInt32 := 64
def ioringSetupSubmitAll : UInt32 := 128
def ioringSetupCoopTaskrun : UInt32 := 256
def ioringSetupTaskrunFlag : UInt32 := 512
def ioringSetupSqe128 : UInt32 := 1024
def ioringSetupCqe32 : UInt32 := 2048
def ioringSetupSingleIssuer : UInt32 := 4096
def ioringSetupDeferTaskrun : UInt32 := 8192
def ioringSetupNoSqarray : UInt32 := 65536

/-- `IORING_FEAT_*`: bits of the features word that the kernel fills in. -/
def ioringFeatSingleMmap : UInt32 := 1
def ioringFeatNodrop : UInt32 := 2
def ioringFeatRegRegRing : UInt32 := 8192

/-- `IORING_OFF_*`: what a mapping of the ring's descriptor shows at these offsets. -/
def ioringOffSqRing : UInt64 := 0
def ioringOffCqRing : UInt64 := 0x8000000
def ioringOffSqes : UInt64 := 0x10000000

/-- `IORING_ENTER_*`: flags of `io_uring_enter`. -/
def ioringEnterGetevents : UInt32 := 1
def ioringEnterSqWakeup : UInt32 := 2
def ioringEnterSqWait : UInt32 := 4
def ioringEnterExtArg : UInt32 := 8
def ioringEnterRegisteredRing : UInt32 := 16

/-- `IORING_REGISTER_*` and `IORING_UNREGISTER_*`, in the kernel's order from 0. -/
inductive IoringRegisterOp where
  | registerBuffers | unregisterBuffers | registerFiles | unregisterFiles | registerEventfd
  | unregisterEventfd | registerFilesUpdate | registerEventfdAsync | registerProbe
  | registerPersonality | unregisterPersonality | registerRestrictions | registerEnableRings
  | registerFiles2 | registerFilesUpdate2 | registerBuffers2 | registerBuffersUpdate
  | registerIowqAff | unregisterIowqAff | registerIowqMaxWorkers | registerRingFds
  | unregisterRingFds | registerPbufRing | unregisterPbufRing | registerSyncCancel
  | registerFileAllocRange | registerPbufStatus | registerNapi | unregisterNapi | registerClock
  | registerCloneBuffers | registerSendMsgRing | registerZcrxIfq | registerResizeRings
  | registerMemRegion
  deriving DecidableEq

def IoringRegisterOp.code (op : IoringRegisterOp) : UInt32 := .ofNat op.ctorIdx

/-- The bit of a register opcode that makes its descriptor an index. -/
def ioringRegisterUseRegisteredRing : UInt32 := 2147483648

def ioringRsrcRegisterSparse : UInt32 := 1
def ioUringNapiStaticAddId : UInt8 := 1
def ioUringNapiStaticDelId : UInt8 := 2

/-- `IORING_OP_*`, in the kernel's order from 0. -/
inductive IoringOp where
  | nop | readv | writev | fsync | readFixed | writeFixed | pollAdd | pollRemove
  | syncFileRange | sendmsg | recvmsg | timeout | timeoutRemove | accept | asyncCancel
  | linkTimeout | connect | fallocate | openat | close | filesUpdate | statx | read | write
  | fadvise | madvise | send | recv | openat2 | epollCtl | splice | provideBuffers
  | removeBuffers | tee | shutdown | renameat | unlinkat | mkdirat | symlinkat | linkat
  | msgRing | fsetxattr | setxattr | fgetxattr | getxattr | socket | uringCmd | sendZc
  | sendmsgZc | readMultishot | waitid | futexWait | futexWake | futexWaitv | fixedFdInstall
  | ftruncate | bind | listen | recvZc | epollWait | readvFixed | writevFixed | pipe
  deriving DecidableEq

/-- `$opcode as u8`: the value a builder stores as its `CODE`. -/
def IoringOp.code (op : IoringOp) : UInt8 := .ofNat op.ctorIdx

/-- `IOSQE_*_BIT`: bit numbers of an entry's flags byte. -/
def iosqeFixedFileBit : UInt8 := 0
def iosqeIoDrainBit : UInt8 := 1
def iosqeIoLinkBit : UInt8 := 2
def iosqeIoHardlinkBit : UInt8 := 3
def iosqeAsyncBit : UInt8 := 4
def iosqeBufferSelectBit : UInt8 := 5
def iosqeCqeSkipSuccessBit : UInt8 := 6

/-- Operation specific bits. -/
def ioringPollAddMulti : UInt32 := 1
def ioringRecvMultishot : UInt16 := 2
def ioringRecvsendFixedBuf : UInt16 := 4
def ioringRecvsendBundle : UInt16 := 16
def ioringAcceptMultishot : UInt16 := 1
def ioringTimeoutUpdate : UInt32 := 2
def ioringUringCmdFixed : UInt32 := 1
def ioringMsgRingFlagsPass : UInt32 := 2
def spliceFFdInFixed : UInt32 := 2147483648
def ioringFileIndexAlloc : Int32 := -1
def socketUringOpSetsockopt : UInt32 := 3

/-- Commands of `IORING_OP_MSG_RING`. -/
def ioringMsgData : UInt64 := 0
def ioringMsgSendFd : UInt64 := 1

/-- `IORING_ASYNC_CANCEL_*`: the criteria of a cancellation. -/
def ioringAsyncCancelAll : UInt32 := 1
def ioringAsyncCancelFd : UInt32 := 2
def ioringAsyncCancelAny : UInt32 := 4
def ioringAsyncCancelFdFixed : UInt32 := 8

end IoUring.Sys
