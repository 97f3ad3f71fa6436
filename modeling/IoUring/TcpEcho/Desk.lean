import IoUring.Cqueue.Entry
import IoUring.Foundation.ByteMemory
import IoUring.Opcode.Marks
import IoUring.TcpEcho.Server
import IoUring.TcpEcho.Sessions
import Mathlib.Data.Finset.Insert
import Mathlib.Data.Multiset.Replicate

/-!
# The server without its queues

Every job of the server is a request, wherever it waits, or a completion. On
this level the kernel answers any request, a request may get lost, the server
takes any completion, and it makes accept requests as its count allows. The
kernel reads a request from the bytes of its entry.
-/

namespace IoUring.TcpEcho

open Foundation Opcode IoUring.Types

/-- The memory that server and kernel share, and the open descriptors. -/
structure Net where
  memory : Memory
  opened : Finset Int32

/-- What the kernel may answer to a request, and what that does. -/
inductive Answer (net : Net) : Op → Int32 → Event → Net → Prop
  | error {op res} (hlow : -4095 ≤ res) (hres : res < 0) : Answer net op res .quiet net
  | accept {op : Accept} {fd} (hplain : op.fileIndex = none) (hres : 0 ≤ fd)
      (hnew : fd ∉ net.opened) :
      Answer net (.accept op) fd (.accepted fd) { net with opened := insert fd net.opened }
  | poll {op : PollAdd} {res} (honce : op.multi = false) (hres : 0 ≤ res) :
      Answer net (.pollAdd op) res .quiet net
  | recv {op : Recv} {fd} (bytes : List UInt8) (hfd : op.fd = .fd fd)
      (hlen : bytes.length ≤ op.len.toNat) (hres : bytes.length < 2 ^ 31) :
      Answer net (.recv op) (.ofNat bytes.length) (.received fd bytes)
        { net with memory := net.memory.write op.buf bytes }
  | send {op : Send} {fd} (n : Nat) (hfd : op.fd = .fd fd) (hlen : n ≤ op.len.toNat)
      (hres : n < 2 ^ 31) :
      Answer net (.send op) (.ofNat n) (.sent fd (net.memory.read op.buf n)) net
  | write {op : Write} {fd} (n : Nat) (hfd : op.fd = .fd fd) (hlen : n ≤ op.len.toNat)
      (hres : n < 2 ^ 31) :
      Answer net (.write op) (.ofNat n) (.sent fd (net.memory.read op.buf n)) net

inductive Job where
  | request (entry : Squeue.Entry)
  | result (cqe : Cqueue.Entry)
  deriving DecidableEq

/-- The token of a job. -/
def Job.key : Job → UInt64
  | .request entry => entry.getUserData
  | .result cqe => cqe.userData

structure Desk where
  tables : Tables
  jobs : Multiset Job
  net : Net

namespace Reply

/-- The request that ends an arm. -/
def jobs (reply : Reply) : Multiset Job :=
  match reply.push with
  | none => 0
  | some entry => {.request entry}

def apply (reply : Reply) (net : Net) : Net where
  memory :=
    match reply.zeroed with
    | none => net.memory
    | some addr => net.memory.write addr (List.replicate bufSize 0)
  opened :=
    match reply.closed with
    | none => net.opened
    | some fd => net.opened.erase fd

/-- What is seen of an arm. -/
def event (reply : Reply) (cqe : Cqueue.Entry) : Event :=
  if cqe.res < 0 then .failed cqe.userData cqe.res
  else
    match reply.closed with
    | none => .quiet
    | some fd => .closed fd

end Reply

/-- The slabs give out vacant keys, and the allocator a buffer apart from all others. -/
structure Fresh.Vacant (fresh : Fresh) (t : Tables) : Prop where
  token : t.tokenAlloc fresh.token = none
  buf : t.bufAlloc fresh.buf = none
  addr : ∀ b a, t.bufAlloc b = some a → Memory.Apart a bufSize fresh.addr bufSize

namespace Desk

inductive Step : Desk → Event → Desk → Prop
  | answer {tables jobs net entry cqe op event net'} (hop : decode (.entry entry) = some op)
      (hkey : cqe.userData = entry.getUserData) (h : Answer net op cqe.res event net') :
      Step ⟨tables, .request entry ::ₘ jobs, net⟩ event ⟨tables, .result cqe ::ₘ jobs, net'⟩
  | drop {tables jobs net entry} :
      Step ⟨tables, .request entry ::ₘ jobs, net⟩ (.dropped entry) ⟨tables, jobs, net⟩
  | accepts {tables jobs net} (n : Nat) (hn : n ≤ tables.accept.count) :
      Step ⟨tables, jobs, net⟩ .quiet
        ⟨{ tables with accept.count := tables.accept.count - n },
          Multiset.replicate n (.request tables.accept.entry) + jobs, net⟩
  | serve {tables jobs net cqe fresh tables' reply} (hfresh : fresh.Vacant tables)
      (h : tables.serve cqe.userData cqe.res fresh = some (tables', reply)) :
      Step ⟨tables, .result cqe ::ₘ jobs, net⟩ (reply.event cqe)
        ⟨tables', reply.jobs + jobs, reply.apply net⟩

end Desk

/-! ## The requests as the kernel reads them -/

@[simp] theorem getUserData_acceptEntry (fd : Int32) (token : UInt64) :
    (acceptEntry fd token).getUserData = token := rfl

@[simp] theorem getUserData_pollEntry (fd : Int32) (token : UInt64) :
    (pollEntry fd token).getUserData = token := rfl

@[simp] theorem getUserData_readEntry (fd : Int32) (buf token : UInt64) :
    (readEntry fd buf token).getUserData = token := rfl

@[simp] theorem getUserData_sendEntry (fd : Int32) (buf : UInt64) (len : Nat) (token : UInt64) :
    (sendEntry fd buf len token).getUserData = token := rfl

@[simp] theorem getUserData_writeEntry (fd : Int32) (buf : UInt64) (len : Nat) (token : UInt64) :
    (writeEntry fd buf len token).getUserData = token := rfl

/-- User data changes nothing of what is read. -/
theorem decode_userData (op : Op) {entry : Squeue.Entry} (h : op.build = .entry entry)
    (token : UInt64) : decode (.entry (entry.userData token)) = some op.normal := by
  have hmarks : marks (.userData token) := ⟨by simp, UInt8.zero_and⟩
  rw [← decode_build op, h, ← decode_apply hmarks]
  rfl

theorem decode_acceptEntry (fd : Int32) (token : UInt64) :
    decode (.entry (acceptEntry fd token)) =
      some (.accept { fd := .fd fd, addr := 0, addrlen := 0 }) :=
  decode_userData (.accept { fd := .fd fd, addr := 0, addrlen := 0 }) rfl token

theorem decode_pollEntry (fd : Int32) (token : UInt64) :
    decode (.entry (pollEntry fd token)) = some (.pollAdd { fd := .fd fd, flags := pollin }) :=
  decode_userData (.pollAdd { fd := .fd fd, flags := pollin }) rfl token

theorem decode_readEntry (fd : Int32) (buf token : UInt64) :
    decode (.entry (readEntry fd buf token)) =
      some (.recv { fd := .fd fd, buf, len := .ofNat bufSize }) :=
  decode_userData (.recv { fd := .fd fd, buf, len := .ofNat bufSize }) rfl token

theorem decode_sendEntry (fd : Int32) (buf : UInt64) (len : Nat) (token : UInt64) :
    decode (.entry (sendEntry fd buf len token)) =
      some (.send { fd := .fd fd, buf, len := .ofNat len }) :=
  decode_userData (.send { fd := .fd fd, buf, len := .ofNat len }) rfl token

theorem decode_writeEntry (fd : Int32) (buf : UInt64) (len : Nat) (token : UInt64) :
    decode (.entry (writeEntry fd buf len token)) =
      some (.write { fd := .fd fd, buf, len := .ofNat len }) :=
  decode_userData (.write { fd := .fd fd, buf, len := .ofNat len }) rfl token

/-! ## What an arm does -/

namespace Tables

/-- Everything that one turn of the loop can come to. -/
inductive Served (t : Tables) (k : UInt64) (res : Int32) (fresh : Fresh) : Tables → Reply → Prop
  | failed (hres : res < 0) : Served t k res fresh t {}
  | accepted (hres : 0 ≤ res) (ht : t.tokenAlloc k = some .accept) :
      Served t k res fresh
        ({ t with accept.count := t.accept.count + 1 }.setToken fresh.token (some (.poll res)))
        { push := some (pollEntry res fresh.token) }
  | pooled {fd b rest a} (hres : 0 ≤ res) (ht : t.tokenAlloc k = some (.poll fd))
      (hpool : t.bufpool = b :: rest) (ha : t.bufAlloc b = some a) :
      Served t k res fresh ({ t with bufpool := rest }.setToken k (some (.read fd b)))
        { push := some (readEntry fd a k) }
  | allocated {fd} (hres : 0 ≤ res) (ht : t.tokenAlloc k = some (.poll fd))
      (hpool : t.bufpool = []) :
      Served t k res fresh
        ({ t with bufAlloc := Function.update t.bufAlloc fresh.buf (some fresh.addr) }.setToken k
          (some (.read fd fresh.buf)))
        { push := some (readEntry fd fresh.addr k), zeroed := some fresh.addr }
  | ended {fd b} (hres : res = 0) (ht : t.tokenAlloc k = some (.read fd b)) :
      Served t k res fresh ({ t with bufpool := b :: t.bufpool }.setToken k none)
        { closed := some fd }
  | received {fd b a} (hres : 0 < res) (ht : t.tokenAlloc k = some (.read fd b))
      (ha : t.bufAlloc b = some a) :
      Served t k res fresh (t.setToken k (some (.write fd b 0 res.toInt.toNat)))
        { push := some (sendEntry fd a res.toInt.toNat k) }
  | answered {fd b offset len} (hres : 0 ≤ res)
      (ht : t.tokenAlloc k = some (.write fd b offset len))
      (hdone : advance res.toInt.toNat (offset, len) = none) :
      Served t k res fresh ({ t with bufpool := b :: t.bufpool }.setToken k (some (.poll fd)))
        { push := some (pollEntry fd k) }
  | continued {fd b offset len offset' len' a} (hres : 0 ≤ res)
      (ht : t.tokenAlloc k = some (.write fd b offset len))
      (hnext : advance res.toInt.toNat (offset, len) = some (offset', len'))
      (ha : t.bufAlloc b = some a) :
      Served t k res fresh (t.setToken k (some (.write fd b offset' len')))
        { push := some (writeEntry fd (a + .ofNat offset') len' k) }

variable {t t' : Tables} {k : UInt64} {res : Int32} {fresh : Fresh} {reply : Reply}

theorem served_of_onWrite {fd : Int32} {b : UInt64} {offset len : Nat} (hres : 0 ≤ res)
    (ht : t.tokenAlloc k = some (.write fd b offset len))
    (h : t.onWrite k res.toInt.toNat fd b offset len = some (t', reply)) :
    Served t k res fresh t' reply := by
  simp only [onWrite] at h
  split at h
  · rename_i hdone
    cases h
    exact .answered hres ht (if_pos hdone)
  · rename_i hshort
    obtain ⟨a, ha, hslice⟩ := Option.bind_eq_some_iff.mp h
    split at hslice
    · cases hslice
      exact .continued hres ht (if_neg hshort) ha
    · cases hslice

theorem served_of_serve (h : t.serve k res fresh = some (t', reply)) :
    Served t k res fresh t' reply := by
  unfold serve at h
  split at h
  · rename_i hres
    cases h
    exact .failed hres
  · rename_i hres
    have hres : 0 ≤ res := Int32.not_lt.mp hres
    obtain ⟨token, ht, harm⟩ := Option.bind_eq_some_iff.mp h
    cases token with
    | accept =>
        cases harm
        exact .accepted hres ht
    | poll fd =>
        simp only [onPoll, takeBuf] at harm
        split at harm
        · rename_i b rest hpool
          rw [Option.map_map] at harm
          obtain ⟨a, ha, hpair⟩ := Option.map_eq_some_iff.mp harm
          cases hpair
          exact .pooled hres ht hpool ha
        · rename_i hpool
          cases harm
          exact .allocated hres ht hpool
    | read fd b =>
        simp only [onRead] at harm
        split at harm
        · rename_i hzero
          cases harm
          refine .ended ?_ ht
          apply Int32.toInt_inj.mp
          have hnonneg := Int32.le_iff_toInt_le.mp hres
          simp only [Int32.toInt_zero] at hnonneg ⊢
          omega
        · rename_i hpos
          obtain ⟨a, ha, hpair⟩ := Option.map_eq_some_iff.mp harm
          cases hpair
          refine .received ?_ ht ha
          apply Int32.lt_iff_toInt_lt.mpr
          simp only [Int32.toInt_zero]
          omega
    | write fd b offset len => exact served_of_onWrite hres ht harm

end Tables

end IoUring.TcpEcho
