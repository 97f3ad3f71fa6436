import IoUring.Opcode.Control
import IoUring.Opcode.File
import IoUring.Opcode.Net
import IoUring.Squeue.Queue

/-!
# The echo server

`tcp_echo.rs` serves any number of connections over one ring. A token says what
is going on under the user data of a request, and a buffer belongs to a
connection between a poll and the end of its answer. The functions here are the
arms of the server's loop; `none` stands for a panic. The slabs and the
allocator are not part of the repository, so what they give out is an argument.
-/

namespace IoUring.TcpEcho

inductive Token where
  | accept
  | poll (fd : Int32)
  | read (fd : Int32) (bufIndex : UInt64)
  | write (fd : Int32) (bufIndex : UInt64) (offset len : Nat)
  deriving DecidableEq

structure AcceptCount where
  entry : Squeue.Entry
  count : Nat

/-- `libc::POLLIN`. -/
def pollin : UInt32 := 1

/-- The length of a buffer. -/
def bufSize : Nat := 2048

def acceptEntry (fd : Int32) (token : UInt64) : Squeue.Entry :=
  ({ fd := .fd fd, addr := 0, addrlen := 0 } : Opcode.Accept).build.userData token

def pollEntry (fd : Int32) (token : UInt64) : Squeue.Entry :=
  ({ fd := .fd fd, flags := pollin } : Opcode.PollAdd).build.userData token

def readEntry (fd : Int32) (buf token : UInt64) : Squeue.Entry :=
  ({ fd := .fd fd, buf, len := .ofNat bufSize } : Opcode.Recv).build.userData token

def sendEntry (fd : Int32) (buf : UInt64) (len : Nat) (token : UInt64) : Squeue.Entry :=
  ({ fd := .fd fd, buf, len := .ofNat len } : Opcode.Send).build.userData token

def writeEntry (fd : Int32) (buf : UInt64) (len : Nat) (token : UInt64) : Squeue.Entry :=
  ({ fd := .fd fd, buf, len := .ofNat len } : Opcode.Write).build.userData token

namespace AcceptCount

def new (fd : Int32) (token : UInt64) (count : Nat) : AcceptCount where
  entry := acceptEntry fd token
  count := count

/-- The loop of `push_to`: what is left of the count, and the queue. -/
def pushWhile (entry : Squeue.Entry) :
    Nat → Squeue.SubmissionQueue → Squeue.Inner Squeue.Entry →
      Nat × Squeue.SubmissionQueue × Squeue.Inner Squeue.Entry
  | 0, sq, q => (0, sq, q)
  | count + 1, sq, q =>
      match sq.push q entry with
      | .ok (sq, q) => pushWhile entry count sq q
      | .error _ => (count + 1, sq, q)

def pushTo (accept : AcceptCount) (sq : Squeue.SubmissionQueue) (q : Squeue.Inner Squeue.Entry) :
    AcceptCount × Squeue.SubmissionQueue × Squeue.Inner Squeue.Entry :=
  let (count, sq, q) := pushWhile accept.entry accept.count sq q
  let (sq, q) := sq.sync q
  ({ accept with count }, sq, q)

end AcceptCount

/-- The variables of `main` that an arm of the loop uses. A slab leads from its keys to what was
inserted, `bufAlloc` to the address of the buffer; the end of `bufpool` comes first. -/
structure Tables where
  tokenAlloc : UInt64 → Option Token
  bufAlloc : UInt64 → Option UInt64
  bufpool : List UInt64
  accept : AcceptCount

/-- The keys that the slabs and the address that the allocator would give out next. -/
structure Fresh where
  token : UInt64
  buf : UInt64
  addr : UInt64

/-- What an arm does to the outside: the request it pushes, the new buffer it fills with zeros
and the descriptor it closes. -/
structure Reply where
  push : Option Squeue.Entry := none
  zeroed : Option UInt64 := none
  closed : Option Int32 := none

namespace Tables

def setToken (t : Tables) (tokenIndex : UInt64) (token : Option Token) : Tables :=
  { t with tokenAlloc := Function.update t.tokenAlloc tokenIndex token }

@[simp] theorem tokenAlloc_setToken (t : Tables) (k : UInt64) (token : Option Token) :
    (t.setToken k token).tokenAlloc = Function.update t.tokenAlloc k token := rfl

/-- A buffer from the pool, or a new one: its index and its address, and the address once more
if it is new. -/
def takeBuf (t : Tables) (fresh : Fresh) : Option (UInt64 × UInt64 × Option UInt64 × Tables) :=
  match t.bufpool with
  | bufIndex :: rest =>
      (t.bufAlloc bufIndex).map fun buf => (bufIndex, buf, none, { t with bufpool := rest })
  | [] =>
      some (fresh.buf, fresh.addr, some fresh.addr,
        { t with bufAlloc := Function.update t.bufAlloc fresh.buf (some fresh.addr) })

def onAccept (t : Tables) (fd : Int32) (fresh : Fresh) : Tables × Reply :=
  let t := { t with accept.count := t.accept.count + 1 }
  (t.setToken fresh.token (some (.poll fd)), { push := some (pollEntry fd fresh.token) })

def onPoll (t : Tables) (tokenIndex : UInt64) (fd : Int32) (fresh : Fresh) :
    Option (Tables × Reply) :=
  (t.takeBuf fresh).map fun (bufIndex, buf, zeroed, t) =>
    (t.setToken tokenIndex (some (.read fd bufIndex)),
      { push := some (readEntry fd buf tokenIndex), zeroed })

def onRead (t : Tables) (tokenIndex : UInt64) (ret : Nat) (fd : Int32) (bufIndex : UInt64) :
    Option (Tables × Reply) :=
  if ret = 0 then
    let t := { t with bufpool := bufIndex :: t.bufpool }
    some (t.setToken tokenIndex none, { closed := some fd })
  else
    let len := ret
    (t.bufAlloc bufIndex).map fun buf =>
      (t.setToken tokenIndex (some (.write fd bufIndex 0 len)),
        { push := some (sendEntry fd buf len tokenIndex) })

/-- After a short write, `len` is what is left, while `offset` still counts from the start. -/
def onWrite (t : Tables) (tokenIndex : UInt64) (ret : Nat) (fd : Int32) (bufIndex : UInt64)
    (offset len : Nat) : Option (Tables × Reply) :=
  let writeLen := ret
  if offset + writeLen ≥ len then
    let t := { t with bufpool := bufIndex :: t.bufpool }
    some (t.setToken tokenIndex (some (.poll fd)), { push := some (pollEntry fd tokenIndex) })
  else
    let offset := offset + writeLen
    let len := len - offset
    (t.bufAlloc bufIndex).bind fun buf =>
      -- the slice `[offset..]`
      if offset ≤ bufSize then
        some (t.setToken tokenIndex (some (.write fd bufIndex offset len)),
          { push := some (writeEntry fd (buf + .ofNat offset) len tokenIndex) })
      else none

/-- One turn of the loop over completions, up to the push that ends it. An error is printed with
the token, if there is one, and nothing else happens. -/
def serve (t : Tables) (userData : UInt64) (res : Int32) (fresh : Fresh) :
    Option (Tables × Reply) :=
  let tokenIndex := userData
  if res < 0 then some (t, {})
  else
    let ret := res.toInt.toNat
    (t.tokenAlloc tokenIndex).bind fun
      | .accept => some (t.onAccept res fresh)
      | .poll fd => t.onPoll tokenIndex fd fresh
      | .read fd bufIndex => t.onRead tokenIndex ret fd bufIndex
      | .write fd bufIndex offset len => t.onWrite tokenIndex ret fd bufIndex offset len

end Tables

end IoUring.TcpEcho
