import IoUring.Parameters

/-!
# The submitter

A submit call loads the submission ring's head, tail and flags word, the flags
word twice, and then either returns or enters the kernel. The functions here
take the loaded values, so that the steps of a model can put the other parties'
steps between the loads.
-/

namespace IoUring.Submit

/-- `Submitter` without the pointers through which it loads. -/
structure Submitter where
  fd : Int32
  params : Parameters
  enterRingFd : Int32 := -1

/-- A call of `io_uring_enter`. -/
structure EnterCall where
  fd : Int32
  toSubmit : UInt32
  minComplete : UInt32
  flag : UInt32
  arg : UInt64
  size : UInt64
  deriving DecidableEq

/-- What a submit call comes to: it returns at once or enters the kernel. -/
inductive Outcome where
  | ok (len : UInt64)
  | enter (call : EnterCall)
  deriving DecidableEq

/-- `sq_len` on the loaded head and tail. -/
def sqLen (head tail : UInt32) : UInt64 := (tail - head).toUInt64

/-- `sq_need_wakeup` on the loaded flags word. -/
def sqNeedWakeup (sqFlags : UInt32) : Bool := sqFlags &&& Sys.ioringSqNeedWakeup != 0

/-- `sq_cq_overflow` on the loaded flags word. -/
def sqCqOverflow (sqFlags : UInt32) : Bool := sqFlags &&& Sys.ioringSqCqOverflow != 0

/-- The size of `libc::sigset_t`, passed with a null argument. -/
def sigsetSize : UInt64 := 128

/-- The size of `SubmitArgs`, an `io_uring_getevents_arg`. -/
def submitArgsSize : UInt64 := 24

namespace Submitter

variable (s : Submitter)

/-- `enter`, with the argument's address (null for `None`) and the size of its type. -/
def enter (toSubmit minComplete flag : UInt32) (arg size : UInt64) : EnterCall :=
  let enterRingFd := s.enterRingFd
  let (fd, flag) :=
    if enterRingFd ≥ 0 then (enterRingFd, flag ||| Sys.ioringEnterRegisteredRing)
    else (s.fd, flag)
  { fd, toSubmit, minComplete, flag, arg, size }

/-- `squeue_wait`. -/
def squeueWait : EnterCall := s.enter 0 0 Sys.ioringEnterSqWait 0 sigsetSize

/-- `submit_and_wait` once `len` and the flags word of the overflow load (`f1`)
and of the wake-up load (`f2`) are known; without SQPOLL the second is not made. -/
def submitAndWait (want len : UInt64) (f1 f2 : UInt32) : Outcome :=
  let flags := 0
  let cqOverflow := sqCqOverflow f1
  let needSyscallForOverflow := cqOverflow && s.params.isFeatureNodrop
  let flags :=
    if want > 0 || s.params.isSetupIopoll || cqOverflow then
      flags ||| Sys.ioringEnterGetevents
    else flags
  let doEnter (flags : UInt32) : Outcome :=
    .enter (s.enter len.toUInt32 want.toUInt32 flags 0 sigsetSize)
  if s.params.isSetupSqpoll then
    if sqNeedWakeup f2 then doEnter (flags ||| Sys.ioringEnterSqWakeup)
    else if want == 0 && !needSyscallForOverflow then .ok len
    else doEnter flags
  else doEnter flags

/-- `submit`. -/
def submit (len : UInt64) (f1 f2 : UInt32) : Outcome := s.submitAndWait 0 len f1 f2

/-- `submit_with_args`, with the address of the arguments. -/
def submitWithArgs (want args len : UInt64) (f1 f2 : UInt32) : Outcome :=
  let flags := Sys.ioringEnterExtArg
  let cqOverflow := sqCqOverflow f1
  let needSyscall := cqOverflow && s.params.isFeatureNodrop
  let flags :=
    if want > 0 || s.params.isSetupIopoll || cqOverflow then
      flags ||| Sys.ioringEnterGetevents
    else flags
  let doEnter (flags : UInt32) : Outcome :=
    .enter (s.enter len.toUInt32 want.toUInt32 flags args submitArgsSize)
  if s.params.isSetupSqpoll then
    if sqNeedWakeup f2 then doEnter (flags ||| Sys.ioringEnterSqWakeup)
    else if want == 0 && !needSyscall then .ok len
    else doEnter flags
  else doEnter flags

end Submitter

/-- A call of one of the submit functions. -/
inductive Request where
  | submitAndWait (want : UInt64)
  | submitWithArgs (want args : UInt64)

/-- What the call comes to on the loaded values. -/
def Submitter.finish (s : Submitter) (len : UInt64) (f1 f2 : UInt32) : Request → Outcome
  | .submitAndWait want => s.submitAndWait want len f1 f2
  | .submitWithArgs want args => s.submitWithArgs want args len f1 f2

end IoUring.Submit
