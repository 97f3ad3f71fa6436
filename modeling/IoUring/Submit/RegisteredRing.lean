import IoUring.Foundation.HandleTable
import IoUring.Foundation.Transition
import IoUring.Submit.Decision
import IoUring.Submit.Register
import Mathlib.Algebra.Group.Nat.Defs

/-!
# The registered ring fd

A submitter may register its ring with the kernel, which then knows the ring by
an index into a table of the task, and from then on passes that index in place
of the descriptor. Any number of submitters of one ring call their methods in
any order, and the kernel lets each call succeed or fail.
-/

namespace IoUring.Submit

open Sys (IoringRegisterOp)
open IoUring.Types (CancelBuilder)

/-- A call of a registration method other than those for the ring fd. -/
inductive RegisterRequest where
  | registerBuffers (bufs : Slice)
  | registerBuffersUpdate (offset : UInt32) (bufs : Slice) (tags : Option Slice)
  | registerBuffers2 (bufs tags : Slice)
  | registerBuffersSparse (nr : UInt32)
  | registerBuffersClone (srcFd : Int32)
  | registerBuffersCloneOffset (srcFd : Int32) (srcOff dstOff nr flags : UInt32)
  | registerFilesSparse (nr : UInt32)
  | registerFiles (fds : Slice)
  | registerFilesUpdate (offset : UInt32) (fds : Slice)
  | registerEventfd (eventfd : Int32)
  | registerEventfdAsync (eventfd : Int32)
  | registerProbe (probe : UInt64)
  | registerPersonality
  | unregisterBuffers
  | unregisterFiles
  | unregisterEventfd
  | unregisterPersonality (personality : UInt16)
  | registerRestrictions (res : Slice)
  | registerEnableRings
  | registerIowqAff (cpuSet : UInt64)
  | unregisterIowqAff
  | registerIowqMaxWorkers (max : UInt64)
  | registerNapi (napi : UInt64)
  | unregisterNapi (napi : UInt64)
  | registerNapiAddId (napiId : UInt32)
  | registerNapiDelId (napiId : UInt32)
  | registerBufRing (ringAddr : UInt64) (ringEntries bgid : UInt16)
  | registerBufRingWithFlags (ringAddr : UInt64) (ringEntries bgid flags : UInt16)
  | unregisterBufRing (bgid : UInt16)
  | registerSyncCancel (timeout : Option (Int64 × Int64)) (builder : CancelBuilder)
  | registerIfq (reg : UInt64)

/-- What a method returns when it succeeds. -/
inductive Value where
  | unit
  | usize (n : UInt64)
  | personality (id : UInt16)
  deriving DecidableEq

namespace RegisterRequest

def call (s : Submitter) : RegisterRequest → RegisterCall
  | registerBuffers bufs => s.registerBuffers bufs
  | registerBuffersUpdate offset bufs tags => s.registerBuffersUpdate offset bufs tags
  | registerBuffers2 bufs tags => s.registerBuffers2 bufs tags
  | registerBuffersSparse nr => s.registerBuffersSparse nr
  | registerBuffersClone srcFd => s.registerBuffersClone srcFd
  | registerBuffersCloneOffset srcFd srcOff dstOff nr flags =>
      s.registerBuffersCloneOffset srcFd srcOff dstOff nr flags
  | registerFilesSparse nr => s.registerFilesSparse nr
  | registerFiles fds => s.registerFiles fds
  | registerFilesUpdate offset fds => s.registerFilesUpdate offset fds
  | registerEventfd eventfd => s.registerEventfd eventfd
  | registerEventfdAsync eventfd => s.registerEventfdAsync eventfd
  | registerProbe probe => s.registerProbe probe
  | registerPersonality => s.registerPersonality
  | unregisterBuffers => s.unregisterBuffers
  | unregisterFiles => s.unregisterFiles
  | unregisterEventfd => s.unregisterEventfd
  | unregisterPersonality personality => s.unregisterPersonality personality
  | registerRestrictions res => s.registerRestrictions res
  | registerEnableRings => s.registerEnableRings
  | registerIowqAff cpuSet => s.registerIowqAff cpuSet
  | unregisterIowqAff => s.unregisterIowqAff
  | registerIowqMaxWorkers max => s.registerIowqMaxWorkers max
  | registerNapi napi => s.registerNapi napi
  | unregisterNapi napi => s.unregisterNapi napi
  | registerNapiAddId napiId => s.registerNapiAddId napiId
  | registerNapiDelId napiId => s.registerNapiDelId napiId
  | registerBufRing ringAddr ringEntries bgid => s.registerBufRing ringAddr ringEntries bgid
  | registerBufRingWithFlags ringAddr ringEntries bgid flags =>
      s.registerBufRingWithFlags ringAddr ringEntries bgid flags
  | unregisterBufRing bgid => s.unregisterBufRing bgid
  | registerSyncCancel timeout builder => s.registerSyncCancel timeout builder
  | registerIfq reg => s.registerIfq reg

/-- The value made of the syscall's result; most methods drop it. -/
def returned (ret : Int32) : RegisterRequest → Value
  | registerFilesUpdate _ _ => .usize ret.toInt64.toUInt64
  | registerPersonality => .personality ret.toUInt32.toUInt16
  | _ => .unit

/-- The opcode that the method passes, before it is marked for an index. -/
def opcode : RegisterRequest → IoringRegisterOp
  | registerBuffers _ => .registerBuffers
  | registerBuffersUpdate _ _ _ => .registerBuffersUpdate
  | registerBuffers2 _ _ | registerBuffersSparse _ => .registerBuffers2
  | registerBuffersClone _ | registerBuffersCloneOffset _ _ _ _ _ => .registerCloneBuffers
  | registerFilesSparse _ => .registerFiles2
  | registerFiles _ => .registerFiles
  | registerFilesUpdate _ _ => .registerFilesUpdate
  | registerEventfd _ => .registerEventfd
  | registerEventfdAsync _ => .registerEventfdAsync
  | registerProbe _ => .registerProbe
  | registerPersonality => .registerPersonality
  | unregisterBuffers => .unregisterBuffers
  | unregisterFiles => .unregisterFiles
  | unregisterEventfd => .unregisterEventfd
  | unregisterPersonality _ => .unregisterPersonality
  | registerRestrictions _ => .registerRestrictions
  | registerEnableRings => .registerEnableRings
  | registerIowqAff _ => .registerIowqAff
  | unregisterIowqAff => .unregisterIowqAff
  | registerIowqMaxWorkers _ => .registerIowqMaxWorkers
  | registerNapi _ | registerNapiAddId _ | registerNapiDelId _ => .registerNapi
  | unregisterNapi _ => .unregisterNapi
  | registerBufRing _ _ _ | registerBufRingWithFlags _ _ _ _ => .registerPbufRing
  | unregisterBufRing _ => .unregisterPbufRing
  | registerSyncCancel _ _ => .registerSyncCancel
  | registerIfq _ => .registerZcrxIfq

/-- The methods that clone a buffer table. -/
def clones : RegisterRequest → Bool
  | registerBuffersClone _ | registerBuffersCloneOffset _ _ _ _ _ => true
  | _ => false

end RegisterRequest

/-- A call of a method of the submitter. The caller of `enter` leaves the flag for a
registered ring to the submitter; a submit call comes with the values it loads. -/
inductive Api where
  | registerRingFd
  | unregisterRingFd
  | enter (toSubmit minComplete flag : UInt32) (arg size : UInt64)
      (flag_free : flag &&& Sys.ioringEnterRegisteredRing = 0)
  | squeueWait
  | submit (req : Request) (len : UInt64) (f1 f2 : UInt32)
  | register (req : RegisterRequest)

/-- How a method goes on: it returns, or it makes a system call and turns the answer
into the submitter and the value that it leaves. -/
inductive Method where
  | done (result : Except Int32 Value)
  | enter (call : EnterCall)
  | register (call : RegisterCall)
      (next : Int32 → RegisterArg → Submitter × Value)

/-- `EEXIST` and `EINVAL`. -/
def eexist : Int32 := 17
def einval : Int32 := 22

namespace Submitter

variable (s : Submitter)

/-- The kernel leaves the index in the argument's `offset`. -/
def registerRingFd : Method :=
  if s.enterRingFd ≥ 0 then .done (.error eexist)
  else
    let rawFd := s.fd
    .register
      (s.executeRegister .registerRingFds (.rsrcUpdate 0xFFFFFFFF 0 rawFd.toInt64.toUInt64) 1)
      fun _ up =>
        match up with
        | .rsrcUpdate offset _ _ => ({ s with enterRingFd := offset.toInt32 }, .unit)
        | _ => (s, .unit)

def unregisterRingFd : Method :=
  let offset := s.enterRingFd
  if offset < 0 then .done (.error einval)
  else
    .register (s.executeRegister .unregisterRingFds (.rsrcUpdate offset.toUInt32 0 0) 1)
      fun _ _ => ({ s with enterRingFd := -1 }, .unit)

def method : Api → Method
  | .registerRingFd => s.registerRingFd
  | .unregisterRingFd => s.unregisterRingFd
  | .enter toSubmit minComplete flag arg size _ =>
      .enter (s.enter toSubmit minComplete flag arg size)
  | .squeueWait => .enter s.squeueWait
  | .submit req len f1 f2 =>
      match s.finish len f1 f2 req with
      | .ok len => .done (.ok (.usize len))
      | .enter call => .enter call
  | .register req => .register (req.call s) fun ret _ => (s, req.returned ret)

end Submitter

/-- The task's registered rings: index to the descriptor it was registered for. -/
abbrev Table := UInt32 → Option Int32

/-- The opcode without the mark for an index. -/
def plainOpcode (opcode : UInt32) : UInt32 := opcode &&& ~~~Sys.ioringRegisterUseRegisteredRing

/-- The kernel's answers to a registration call. A successful `RING_FDS` gives a fresh
index, no negative number as an `i32`, to the descriptor of its argument; a successful
unregistration frees the index it was given; other calls leave the table alone. -/
inductive Answers (table : Table) (call : RegisterCall) :
    Except Int32 Int32 → RegisterArg → Table → Prop
  | fails (errno : Int32) (out : RegisterArg) : Answers table call (.error errno) out table
  | ringFds (offset resv index : UInt32) (data : UInt64) (ret : Int32)
      (opcode_eq : plainOpcode call.opcode = IoringRegisterOp.registerRingFds.code)
      (arg_eq : call.arg = .rsrcUpdate offset resv data)
      (fresh : table index = none) (index_lt : index.toNat < 2 ^ 31) :
      Answers table call (.ok ret) (.rsrcUpdate index resv data)
        (Function.update table index (some data.toInt64.toInt32))
  | unregisterRingFds (offset resv : UInt32) (data : UInt64) (ret : Int32)
      (opcode_eq : plainOpcode call.opcode = IoringRegisterOp.unregisterRingFds.code)
      (arg_eq : call.arg = .rsrcUpdate offset resv data) :
      Answers table call (.ok ret) call.arg (Function.update table offset none)
  | other (ret : Int32) (out : RegisterArg)
      (opcode_ne : plainOpcode call.opcode ≠ IoringRegisterOp.registerRingFds.code)
      (opcode_ne' : plainOpcode call.opcode ≠ IoringRegisterOp.unregisterRingFds.code) :
      Answers table call (.ok ret) out table

/-- The descriptor of the ring that the kernel takes a call to be for. -/
def EnterCall.designates (call : EnterCall) (table : Table) : Option Int32 :=
  if call.flag &&& Sys.ioringEnterRegisteredRing != 0 then table call.fd.toUInt32
  else some call.fd

def RegisterCall.designates (call : RegisterCall) (table : Table) : Option Int32 :=
  if call.opcode &&& Sys.ioringRegisterUseRegisteredRing != 0 then table call.fd.toUInt32
  else some call.fd

variable {ι : Type*} [DecidableEq ι]

/-- The submitters and the table they share. -/
structure System (ι : Type*) where
  submitters : ι → Submitter
  table : Table

/-- What an observer of the system calls sees. -/
inductive Event (ι : Type*) where
  | returned (i : ι) (api : Api) (result : Except Int32 Value)
  | entered (i : ι) (api : Api) (call : EnterCall) (answer : Except Int32 Int32)
  | registered (i : ι) (api : Api) (call : RegisterCall) (answer : Except Int32 Int32)
      (out : RegisterArg)
  | renewed (i : ι)

/-- The state left when a registration method of submitter `i` has its answer; an error
is handed on before anything is assigned. -/
def System.resume (s : System ι) (i : ι) (table : Table)
    (next : Int32 → RegisterArg → Submitter × Value) (out : RegisterArg) :
    Except Int32 Int32 → System ι
  | .error _ => { s with table }
  | .ok ret => { submitters := Function.update s.submitters i (next ret out).1, table }

inductive Step : System ι → Event ι → System ι → Prop
  | returned {s : System ι} (i : ι) (api : Api) (result : Except Int32 Value)
      (hmethod : (s.submitters i).method api = .done result) :
      Step s (.returned i api result) s
  | entered {s : System ι} (i : ι) (api : Api) (call : EnterCall)
      (answer : Except Int32 Int32) (hmethod : (s.submitters i).method api = .enter call) :
      Step s (.entered i api call answer) s
  | registered {s : System ι} (i : ι) (api : Api) (call : RegisterCall)
      (next : Int32 → RegisterArg → Submitter × Value) (answer : Except Int32 Int32)
      (out : RegisterArg) (table : Table)
      (hmethod : (s.submitters i).method api = .register call next)
      (hanswers : Answers s.table call answer out table) :
      Step s (.registered i api call answer out) (s.resume i table next out answer)
  | renewed {s : System ι} (i : ι) :
      Step s (.renewed i)
        { s with submitters := Function.update s.submitters i
                    { fd := (s.submitters i).fd, params := (s.submitters i).params } }

/-- Submitters fresh from `IoUring::submitter`, in a task that may have registered
other rings before. -/
def System.start (ι : Type*) (fd : Int32) (params : Parameters) (table : Table) : System ι where
  submitters _ := { fd, params }
  table := table

/-- Who holds which index: what a successful registration gave and no successful
unregistration has taken back. -/
def record (held : ι → Option UInt32) : Event ι → (ι → Option UInt32)
  | .registered i _ call (.ok _) (.rsrcUpdate offset _ _) =>
      if plainOpcode call.opcode = IoringRegisterOp.registerRingFds.code then
        Function.update held i (some offset)
      else if plainOpcode call.opcode = IoringRegisterOp.unregisterRingFds.code ∧
          held i = some offset then
        Function.update held i none
      else held
  | .renewed i => Function.update held i none
  | _ => held

end IoUring.Submit
