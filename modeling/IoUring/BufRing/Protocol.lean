import IoUring.BufRing.Ring
import IoUring.Foundation.RingWindow
import IoUring.Foundation.Transition
import Mathlib.Algebra.Order.Group.Multiset
import Mathlib.Tactic.Abel

/-!
# Every buffer has one owner

The application registers a ring, pushes its buffers and publishes them; the
kernel picks published buffers, fills them and posts completions; the
application takes handles from the completions and pushes the buffers again
when it drops them. The push and the store of the tail are two steps, so the
kernel's steps fall between them. The ring holds a window of the log of all
pushes, and every buffer is in it, named by a completion, or under a handle.
-/

namespace IoUring.BufRing

open Foundation

/-- In the loop of `register` with the next buffer to push, between calls, or in the drop of a
handle with its buffer pushed and not yet published. -/
inductive Pc where
  | registering (next : Nat)
  | idle
  | dropping
  deriving DecidableEq

structure State where
  ring : InnerBufRing
  /-- The kernel's own head. -/
  head : UInt16
  heap : UInt64 → List UInt8
  posted : List Cqueue.Entry
  live : List GBuf
  pc : Pc

inductive Event where
  | pushed (bid : UInt16)
  | published
  | selected (bid : UInt16) (data : List UInt8)
  | exhausted
  | reaped (bufs : List GBuf)
  | lost (bid : UInt16)
  | failed (res : Int32)

/-- The entry the kernel finds at its head. -/
def InnerBufRing.entryAt (r : InnerBufRing) (head : UInt16) : BufRingEntry :=
  r.ringStart (head &&& r.mask).toNat

/-- The kernel's write of data to the front of a buffer. -/
def fill (heap : UInt64 → List UInt8) (addr : UInt64) (data : List UInt8) :
    UInt64 → List UInt8 :=
  Function.update heap addr (data ++ (heap addr).drop data.length)

inductive Step : State → Event → State → Prop
  -- `register`, whose system call has been made
  | registerPush {r head heap posted live next r'} (hnext : next < r.bufCnt.toNat)
      (h : r.bufRingPush (.ofNat next) = some r') :
      Step ⟨r, head, heap, posted, live, .registering next⟩ (.pushed (.ofNat next))
        ⟨r', head, heap, posted, live, .registering (next + 1)⟩
  | registerSync {r head heap posted live} :
      Step ⟨r, head, heap, posted, live, .registering r.bufCnt.toNat⟩ .published
        ⟨r.bufRingSync, head, heap, posted, live, .idle⟩
  -- the kernel completes a request with a buffer, or without one if none is published
  | select {r head heap posted live pc} (data : List UInt8) (userData : UInt64) (low : UInt16)
      (hready : head ≠ r.sharedTail) (hfits : data.length ≤ (r.entryAt head).len.toNat)
      (hres : data.length < 2 ^ 31) :
      Step ⟨r, head, heap, posted, live, pc⟩ (.selected (r.entryAt head).bid data)
        ⟨r, head + 1, fill heap (r.entryAt head).addr data,
          posted ++ [⟨userData, .ofNat data.length,
            Cqueue.bufferFlags (r.entryAt head).bid low⟩], live, pc⟩
  | exhaust {r head heap posted live pc} (userData : UInt64) (res : Int32)
      (hempty : head = r.sharedTail) (hres : res < 0) :
      Step ⟨r, head, heap, posted, live, pc⟩ .exhausted
        ⟨r, head, heap, posted ++ [⟨userData, res, 0⟩], live, pc⟩
  -- the application takes a completion: with `get_buf` or with `get_bufs`
  | reap {r head heap cqe posted live buf} (hres : 0 ≤ cqe.res)
      (h : r.getBuf cqe.res.toUInt32 cqe.flags = some buf) :
      Step ⟨r, head, heap, cqe :: posted, live, .idle⟩ (.reaped [buf])
        ⟨r, head, heap, posted, live ++ [buf], .idle⟩
  | reapAll {r head heap cqe posted live buf bufs} (hres : 0 ≤ cqe.res)
      (h : r.getBufs cqe.res.toUInt32 cqe.flags = some (buf :: bufs)) :
      Step ⟨r, head, heap, cqe :: posted, live, .idle⟩ (.reaped (buf :: bufs))
        ⟨r, head, heap, posted, live ++ buf :: bufs, .idle⟩
  | reapNothing {r head heap cqe posted live bid} (hres : 0 ≤ cqe.res)
      (h : r.getBufs cqe.res.toUInt32 cqe.flags = some [])
      (hbid : Cqueue.bufferSelect cqe.flags = some bid) :
      Step ⟨r, head, heap, cqe :: posted, live, .idle⟩ (.lost bid)
        ⟨r, head, heap, posted, live, .idle⟩
  | fail {r head heap cqe posted live} (hres : cqe.res < 0) :
      Step ⟨r, head, heap, cqe :: posted, live, .idle⟩ (.failed cqe.res)
        ⟨r, head, heap, posted, live, .idle⟩
  -- the drop of a handle
  | dropPush {r head heap posted after r'} (before : List GBuf) (buf : GBuf)
      (h : r.bufRingPush buf.bid = some r') :
      Step ⟨r, head, heap, posted, before ++ buf :: after, .idle⟩ (.pushed buf.bid)
        ⟨r', head, heap, posted, before ++ after, .dropping⟩
  | dropSync {r head heap posted live} :
      Step ⟨r, head, heap, posted, live, .dropping⟩ .published
        ⟨r.bufRingSync, head, heap, posted, live, .idle⟩

/-- The log of pushes with its published part, what the kernel picked, the data it last put
into each buffer, and the buffers of completions from which no handle was made. -/
structure Ledger where
  pushed : List UInt16
  published : Nat
  taken : List UInt16
  data : UInt16 → List UInt8
  lost : List UInt16

namespace Ledger

def start : Ledger where
  pushed := []
  published := 0
  taken := []
  data := fun _ => []
  lost := []

def record (l : Ledger) : Event → Ledger
  | .pushed bid => { l with pushed := l.pushed ++ [bid] }
  | .published => { l with published := l.pushed.length }
  | .selected bid data =>
      { l with taken := l.taken ++ [bid], data := Function.update l.data bid data }
  | .lost bid => { l with lost := l.lost ++ [bid] }
  | .exhausted | .reaped _ | .failed _ => l

@[simp] theorem record_selected_data (l : Ledger) (bid : UInt16) (data : List UInt8) :
    (l.record (.selected bid data)).data = Function.update l.data bid data := rfl

@[simp] theorem record_selected_lost (l : Ledger) (bid : UInt16) (data : List UInt8) :
    (l.record (.selected bid data)).lost = l.lost := rfl

/-- The ledger of a run that starts with a fresh ring. -/
def of (events : List Event) : Ledger := ledgerAfter record start events

/-- The pushes that the kernel has not picked yet. -/
def waiting (l : Ledger) : List UInt16 := l.pushed.drop l.taken.length

end Ledger

/-- A fresh ring, right after the system call of `register`. -/
def start (r : InnerBufRing) (heap : UInt64 → List UInt8) : State where
  ring := r
  head := 0
  heap := heap
  posted := []
  live := []
  pc := .registering 0

theorem InnerBufRing.WellFormed.bufCnt_le_two_pow {r : InnerBufRing} (wf : r.WellFormed) :
    r.bufCnt.toNat ≤ 2 ^ 15 := by
  obtain ⟨k, hk, hmask⟩ := wf.mask_eq
  exact (wf.bufCnt_le.trans_eq hmask).trans (Nat.pow_le_pow_right (by omega) hk)

/-! ## The ring holds a window of the pushes -/

/-- What an entry says of a buffer; the reserved word is not part of it. -/
def BufRingEntry.view (re : BufRingEntry) : Option UInt64 × UInt32 × UInt16 :=
  (some re.addr, re.len, re.bid)

/-- What the entry of a buffer has to say. -/
def InnerBufRing.describe (r : InnerBufRing) (bid : UInt16) : Option UInt64 × UInt32 × UInt16 :=
  (r.stablePtr bid, r.bufLen.toUInt32, bid)

/-- The counters, the entries and the ledger agree. -/
structure RingInv (l : Ledger) (r : InnerBufRing) (head : UInt16) : Prop where
  wf : r.WellFormed
  local_eq : r.localTail = .ofNat l.pushed.length
  shared_eq : r.sharedTail = .ofNat l.published
  head_eq : head = .ofNat l.taken.length
  taken_prefix : l.taken <+: l.pushed
  taken_le : l.taken.length ≤ l.published
  published_le : l.published ≤ l.pushed.length
  room : l.pushed.length ≤ l.taken.length + r.bufCnt.toNat
  holds : Holds (r.ringEntriesMask.toNat + 1) 0 (fun k => (r.ringStart k).view)
    (l.pushed.map r.describe) l.taken.length

namespace RingInv

variable {l : Ledger} {r r' : InnerBufRing} {head : UInt16}

/-- A counter at position `n` designates entry `n` modulo the size, also after it wrapped. -/
theorem slot_eq (h : RingInv l r head) (n : Nat) :
    (UInt16.ofNat n &&& r.mask).toNat = n % (r.ringEntriesMask.toNat + 1) := by
  obtain ⟨k, hk, hmask⟩ := h.wf.mask_eq
  rw [hmask]
  exact toNat_ofNat_and₁₆ (by omega) hmask

/-- The kernel sees an entry exactly if it has picked less than what is published. -/
theorem ready_iff (h : RingInv l r head) :
    head = r.sharedTail ↔ l.taken.length = l.published := by
  have hle := h.taken_le
  have hpub := h.published_le
  have hroom := h.room
  have hcnt := h.wf.bufCnt_le_two_pow
  rw [h.head_eq, h.shared_eq, eq_comm, ofNat_eq_ofNat_iff₁₆ hle (by omega)]
  exact eq_comm

/-- A buffer below the number of buffers is pushed; that writes its entry and no more. -/
theorem push_eq (wf : r.WellFormed) {bid : UInt16} (hbid : bid < r.bufCnt) :
    ∃ addr re, r.stablePtr bid = some addr ∧
      re = ⟨addr, r.bufLen.toUInt32, bid, (r.ringStart (r.localTail &&& r.mask).toNat).resv⟩ ∧
      r.bufRingPush bid = some { r with
        localTail := r.localTail + 1
        ringStart := Function.update r.ringStart (r.localTail &&& r.mask).toNat re } := by
  have hlt : bid.toNat < r.bufList.length := by
    rw [wf.length_bufList]
    exact UInt16.lt_iff_toNat_lt.mp hbid
  have haddr : r.stablePtr bid = some r.bufList[bid.toNat] := List.getElem?_eq_getElem hlt
  refine ⟨_, _, haddr, rfl, ?_⟩
  rw [InnerBufRing.bufRingPush, if_pos hbid, haddr]
  rfl

/-- Writing an entry keeps the tail, also where it is the entry that holds it. -/
theorem tail_update {ringBase : Nat → BufRingEntry} {k : Nat} {re : BufRingEntry}
    (hre : re.resv = (ringBase k).resv) :
    BufRingEntry.tail (Function.update ringBase k re) = BufRingEntry.tail ringBase := by
  by_cases hzero : k = 0
  · subst hzero
    rw [BufRingEntry.tail, Function.update_self, hre]
    rfl
  · rw [BufRingEntry.tail, Function.update_of_ne (Ne.symm hzero)]
    rfl

/-- Storing the tail keeps what every entry says, also the one that holds it. -/
theorem view_storeTail (ringBase : Nat → BufRingEntry) (tail : UInt16) (k : Nat) :
    (BufRingEntry.storeTail ringBase tail k).view = (ringBase k).view := by
  by_cases hzero : k = 0
  · subst hzero
    rw [BufRingEntry.storeTail, Function.update_self]
    rfl
  · rw [BufRingEntry.storeTail, Function.update_of_ne hzero]

theorem push (h : RingInv l r head) {bid : UInt16} (hbid : bid < r.bufCnt)
    (hroom : l.pushed.length < l.taken.length + r.bufCnt.toNat) :
    ∃ localTail ringStart, r.bufRingPush bid = some { r with localTail, ringStart } ∧
      RingInv (l.record (.pushed bid)) { r with localTail, ringStart } head := by
  obtain ⟨addr, re, haddr, hre, hpush⟩ := push_eq h.wf hbid
  refine ⟨_, _, hpush, ?_⟩
  have hslot : (r.localTail &&& r.mask).toNat =
      l.pushed.length % (r.ringEntriesMask.toNat + 1) := by
    rw [h.local_eq, h.slot_eq]
  have hview : (fun k => (Function.update r.ringStart (r.localTail &&& r.mask).toNat re k).view) =
      Function.update (fun k => (r.ringStart k).view)
        ((0 + (l.pushed.map r.describe).length) % (r.ringEntriesMask.toNat + 1))
        (r.describe bid) := by
    rw [List.length_map, Nat.zero_add, ← hslot]
    have hdescribe : r.describe bid = re.view := by
      rw [InnerBufRing.describe, haddr, hre]
      rfl
    rw [hdescribe]
    exact funext fun k => Function.apply_update (fun _ => BufRingEntry.view) r.ringStart _ re k
  exact {
    wf := { h.wf with }
    local_eq := by
      change r.localTail + 1 = _
      rw [h.local_eq]
      simp [Ledger.record]
    shared_eq := (tail_update (by rw [hre])).trans h.shared_eq
    head_eq := h.head_eq
    taken_prefix := h.taken_prefix.trans (List.prefix_append _ _)
    taken_le := h.taken_le
    published_le := by
      rw [Ledger.record, List.length_append]
      exact h.published_le.trans (Nat.le_add_right _ _)
    room := by
      rw [Ledger.record, List.length_append]
      exact hroom
    holds := by
      have hlen : (l.pushed.map r.describe).length <
          l.taken.length + (r.ringEntriesMask.toNat + 1) := by
        rw [List.length_map]
        exact hroom.trans_le (Nat.add_le_add_left h.wf.bufCnt_le _)
      have hwrite := h.holds.write (r.describe bid) hlen
      rw [← hview] at hwrite
      rw [Ledger.record, List.map_append]
      exact hwrite }

theorem sync (h : RingInv l r head) : RingInv (l.record .published) r.bufRingSync head where
  wf := { h.wf with }
  local_eq := h.local_eq
  shared_eq := by
    have htail : r.bufRingSync.sharedTail = r.localTail := by
      simp [InnerBufRing.sharedTail, InnerBufRing.bufRingSync, BufRingEntry.tail,
        BufRingEntry.storeTail]
    exact htail.trans h.local_eq
  head_eq := h.head_eq
  taken_prefix := h.taken_prefix
  taken_le := h.taken_prefix.length_le
  published_le := Nat.le_refl _
  room := h.room
  holds := by
    have hview : (fun k => (r.bufRingSync.ringStart k).view) = fun k => (r.ringStart k).view :=
      funext (view_storeTail r.ringStart r.localTail)
    rw [hview]
    exact h.holds

/-- What is ready is the next push, described by its entry. -/
theorem entry_eq (h : RingInv l r head) (hready : head ≠ r.sharedTail) :
    ∃ hlt : l.taken.length < l.pushed.length,
      (r.entryAt head).view = r.describe l.pushed[l.taken.length] := by
  have hlt : l.taken.length < l.published :=
    Nat.lt_of_le_of_ne h.taken_le (fun heq => hready (h.ready_iff.mpr heq))
  have hlt' := hlt.trans_le h.published_le
  refine ⟨hlt', ?_⟩
  have hentry := h.holds l.taken.length (by rwa [List.length_map]) (Nat.le_refl _)
  rw [List.getElem_map, Nat.zero_add, ← h.slot_eq, ← h.head_eq] at hentry
  exact hentry

theorem select (h : RingInv l r head) (hready : head ≠ r.sharedTail) (data : List UInt8) :
    RingInv (l.record (.selected (r.entryAt head).bid data)) r (head + 1) := by
  obtain ⟨hlt, hview⟩ := h.entry_eq hready
  have hbid : (r.entryAt head).bid = l.pushed[l.taken.length] :=
    congrArg (fun v => v.2.2) hview
  have hpublished : l.taken.length < l.published :=
    Nat.lt_of_le_of_ne h.taken_le (fun heq => hready (h.ready_iff.mpr heq))
  have htaken : l.taken = l.pushed.take l.taken.length := List.prefix_iff_eq_take.mp h.taken_prefix
  have hroom := h.room
  exact {
    wf := h.wf
    local_eq := h.local_eq
    shared_eq := h.shared_eq
    head_eq := by
      rw [h.head_eq]
      simp [Ledger.record]
    taken_prefix := by
      change l.taken ++ [_] <+: l.pushed
      rw [hbid]
      apply List.prefix_iff_eq_take.mpr
      rw [List.length_append, List.length_singleton, List.take_succ_eq_append_getElem hlt,
        ← htaken]
    taken_le := by
      rw [Ledger.record, List.length_append]
      exact hpublished
    published_le := h.published_le
    room := by
      rw [Ledger.record, List.length_append]
      change l.pushed.length ≤ _
      omega
    holds := h.holds.mono (by rw [Ledger.record, List.length_append]; omega) }

/-- What waits is the next push and what waits behind it. -/
theorem waiting_select (h : RingInv l r head) (hready : head ≠ r.sharedTail)
    (data : List UInt8) :
    l.waiting = (r.entryAt head).bid ::
      (l.record (.selected (r.entryAt head).bid data)).waiting := by
  obtain ⟨hlt, hview⟩ := h.entry_eq hready
  have hbid : (r.entryAt head).bid = l.pushed[l.taken.length] :=
    congrArg (fun v => v.2.2) hview
  rw [Ledger.waiting, Ledger.waiting, List.drop_eq_getElem_cons hlt, hbid]
  simp [Ledger.record]

end RingInv

/-! ## Owners -/

/-- The ids of all buffers. -/
def InnerBufRing.bids (r : InnerBufRing) : List UInt16 :=
  (List.range r.bufCnt.toNat).map .ofNat

/-- The buffers that `register` has still to push. -/
def Pc.unregistered (r : InnerBufRing) : Pc → List UInt16
  | .registering next => r.bids.drop next
  | .idle | .dropping => []

theorem unregistered_eq_cons {r : InnerBufRing} {next : Nat} (h : next < r.bufCnt.toNat) :
    Pc.unregistered r (.registering next) =
      .ofNat next :: Pc.unregistered r (.registering (next + 1)) := by
  have hlength : next < r.bids.length := by
    rw [InnerBufRing.bids, List.length_map, List.length_range]
    exact h
  have hget : r.bids[next] = .ofNat next := by simp [InnerBufRing.bids]
  rw [Pc.unregistered, List.drop_eq_getElem_cons hlength, hget]
  rfl

/-- The buffers that completions name. -/
def named (posted : List Cqueue.Entry) : List UInt16 :=
  posted.filterMap fun cqe => Cqueue.bufferSelect cqe.flags

section Named

variable {posted : List Cqueue.Entry} {cqe : Cqueue.Entry} {bid : UInt16}

theorem named_cons_some (h : Cqueue.bufferSelect cqe.flags = some bid) :
    named (cqe :: posted) = bid :: named posted := List.filterMap_cons_some h

theorem named_cons_none (h : Cqueue.bufferSelect cqe.flags = none) :
    named (cqe :: posted) = named posted := List.filterMap_cons_none h

theorem named_snoc_some (h : Cqueue.bufferSelect cqe.flags = some bid) :
    named (posted ++ [cqe]) = named posted ++ [bid] := by
  rw [named, List.filterMap_append, ← named, ← named, named_cons_some h]
  rfl

theorem named_snoc_none (h : Cqueue.bufferSelect cqe.flags = none) :
    named (posted ++ [cqe]) = named posted := by
  rw [named, List.filterMap_append, ← named, ← named, named_cons_none h]
  exact List.append_nil _

theorem mem_named (hmem : cqe ∈ posted) (h : Cqueue.bufferSelect cqe.flags = some bid) :
    bid ∈ named posted := List.mem_filterMap.mpr ⟨cqe, hmem, h⟩

end Named

/-- The buffers by their owners: waiting in the ring, named by a completion, under a handle,
lost, or still to be registered. -/
def owned (l : Ledger) (s : State) : Multiset UInt16 :=
  ↑l.waiting + ↑(named s.posted) + ↑(s.live.map GBuf.bid) + ↑l.lost + ↑(s.pc.unregistered s.ring)

/-- The data that the kernel last put into a buffer is there. -/
def Filled (stablePtr : UInt16 → Option UInt64) (bufLen : UInt64) (heap : UInt64 → List UInt8)
    (data : UInt16 → List UInt8) (bid : UInt16) : Prop :=
  ∃ addr, stablePtr bid = some addr ∧ (heap addr).take (data bid).length = data bid ∧
    (data bid).length ≤ bufLen.toNat

/-- What a completion says is so. -/
inductive Reports (stablePtr : UInt16 → Option UInt64) (bufLen : UInt64)
    (heap : UInt64 → List UInt8) (data : UInt16 → List UInt8) (cqe : Cqueue.Entry) : Prop
  | failure (hres : cqe.res < 0) (hflags : Cqueue.bufferSelect cqe.flags = none)
  | buffer {bid} (hres : 0 ≤ cqe.res) (hflags : Cqueue.bufferSelect cqe.flags = some bid)
      (hlen : cqe.res.toUInt32.toNat = (data bid).length)
      (filled : Filled stablePtr bufLen heap data bid)

/-- The ring, the owners and the data. -/
structure Inv (l : Ledger) (s : State) : Prop where
  ring : RingInv l s.ring s.head
  once : owned l s = ↑s.ring.bids
  posted : ∀ cqe ∈ s.posted, Reports s.ring.stablePtr s.ring.bufLen s.heap l.data cqe
  live : ∀ buf ∈ s.live, Filled s.ring.stablePtr s.ring.bufLen s.heap l.data buf.bid ∧
    buf.len.toNat = (l.data buf.bid).length
  published_eq : s.pc = .idle → l.published = l.pushed.length

theorem InnerBufRing.WellFormed.nodup_bids {r : InnerBufRing} (wf : r.WellFormed) :
    r.bids.Nodup := by
  have hcnt := wf.bufCnt_le_two_pow
  apply List.Nodup.map_on _ List.nodup_range
  intro a ha b hb heq
  have ha' := List.mem_range.mp ha
  have hb' := List.mem_range.mp hb
  have hnat := congrArg UInt16.toNat heq
  rw [UInt16.toNat_ofNat_of_lt' (show a < 2 ^ 16 by omega),
    UInt16.toNat_ofNat_of_lt' (show b < 2 ^ 16 by omega)] at hnat
  exact hnat

theorem InnerBufRing.mem_bids {r : InnerBufRing} {bid : UInt16} :
    bid ∈ r.bids ↔ bid < r.bufCnt := by
  rw [InnerBufRing.bids, List.mem_map, UInt16.lt_iff_toNat_lt]
  constructor
  · rintro ⟨i, hi, rfl⟩
    rw [UInt16.toNat_ofNat']
    exact (Nat.mod_le _ _).trans_lt (List.mem_range.mp hi)
  · intro hlt
    exact ⟨bid.toNat, List.mem_range.mpr hlt, UInt16.ofNat_toNat⟩

namespace Inv

variable {l : Ledger} {s : State}

theorem wf (h : Inv l s) : s.ring.WellFormed := h.ring.wf

/-- An owned buffer is one of the ring's. -/
theorem lt_of_mem (h : Inv l s) {bid : UInt16} (hmem : bid ∈ owned l s) : bid < s.ring.bufCnt := by
  rw [h.once, Multiset.mem_coe] at hmem
  exact InnerBufRing.mem_bids.mp hmem

/-- No buffer has two owners. -/
theorem count_le (h : Inv l s) (bid : UInt16) : (owned l s).count bid ≤ 1 := by
  apply Multiset.nodup_iff_count_le_one.mp
  rw [h.once]
  exact Multiset.coe_nodup.mpr h.wf.nodup_bids

theorem card_owned (h : Inv l s) : (owned l s).card = s.ring.bufCnt.toNat := by
  rw [h.once, Multiset.coe_card, InnerBufRing.bids, List.length_map, List.length_range]

end Inv

/-- Distinct buffers are at distinct addresses. -/
theorem stablePtr_ne {r : InnerBufRing} (wf : r.WellFormed) {bid bid' : UInt16} {addr : UInt64}
    (hne : bid' ≠ bid) (h : r.stablePtr bid = some addr) : r.stablePtr bid' ≠ some addr := by
  intro h'
  apply hne
  apply UInt16.toNat_inj.mp
  obtain ⟨hlt, -⟩ := List.getElem?_eq_some_iff.mp h
  exact ((List.getElem?_inj hlt wf.nodup_bufList).mp (h.trans h'.symm)).symm

section Filled

variable {r : InnerBufRing} {heap : UInt64 → List UInt8} {data : UInt16 → List UInt8}
  {bid bid' : UInt16} {addr : UInt64} {new : List UInt8}

/-- Data in one buffer is not touched by data put into another. -/
theorem Filled.fill (wf : r.WellFormed) (hne : bid' ≠ bid) (haddr : r.stablePtr bid = some addr)
    (h : Filled r.stablePtr r.bufLen heap data bid') :
    Filled r.stablePtr r.bufLen (BufRing.fill heap addr new) (Function.update data bid new)
      bid' := by
  obtain ⟨addr', haddr', hdata, hlen⟩ := h
  have hother : addr' ≠ addr := by
    rintro rfl
    exact stablePtr_ne wf hne haddr haddr'
  refine ⟨addr', haddr', ?_, ?_⟩
  · rw [BufRing.fill, Function.update_of_ne hne, Function.update_of_ne hother]
    exact hdata
  · rw [Function.update_of_ne hne]
    exact hlen

/-- Data put into a buffer is in it. -/
theorem Filled.filled (haddr : r.stablePtr bid = some addr) (hlen : new.length ≤ r.bufLen.toNat) :
    Filled r.stablePtr r.bufLen (BufRing.fill heap addr new) (Function.update data bid new)
      bid := by
  refine ⟨addr, haddr, ?_, ?_⟩
  · rw [BufRing.fill, Function.update_self, Function.update_self]
    exact List.take_left
  · rw [Function.update_self]
    exact hlen

end Filled

/-! ## Steps -/

/-- A length that a result can hold is read back from it. -/
theorem toNat_toUInt32_ofNat {n : Nat} (h : n < 2 ^ 31) :
    0 ≤ Int32.ofNat n ∧ (Int32.ofNat n).toUInt32.toNat = n := by
  constructor
  · rw [Int32.le_iff_toInt_le, Int32.toInt_ofNat_of_lt h]
    exact Int.natCast_nonneg n
  · rw [Int32.toUInt32_ofNat']
    exact UInt32.toNat_ofNat_of_lt' (show n < 2 ^ 32 by omega)

namespace Inv

variable {l : Ledger} {r : InnerBufRing} {head : UInt16} {heap : UInt64 → List UInt8}
  {posted : List Cqueue.Entry} {live : List GBuf} {pc pc' : Pc} {cqe : Cqueue.Entry}

/-- What waits is within the room of the ring as long as some buffer is elsewhere. -/
theorem room (h : Inv l ⟨r, head, heap, posted, live, pc⟩)
    (helse : named posted ++ live.map GBuf.bid ++ l.lost ++ pc.unregistered r ≠ []) :
    l.pushed.length < l.taken.length + r.bufCnt.toNat := by
  have hcard := h.card_owned
  have hpos := List.length_pos_iff.mpr helse
  simp only [owned, Multiset.card_add, Multiset.coe_card, Ledger.waiting, List.length_drop]
    at hcard
  simp only [List.length_append] at hpos
  omega

/-- A push by whoever owns the buffer moves it into the ring. -/
theorem push (h : Inv l ⟨r, head, heap, posted, live, pc⟩) {bid : UInt16} {live' : List GBuf}
    (hmem : bid ∈ live.map GBuf.bid ++ pc.unregistered r) (hlive : ∀ buf ∈ live', buf ∈ live)
    (hmoves : (↑(live.map GBuf.bid) + ↑(pc.unregistered r) : Multiset UInt16) =
      {bid} + (↑(live'.map GBuf.bid) + ↑(pc'.unregistered r))) (hpc : pc' ≠ .idle) :
    ∃ localTail ringStart, r.bufRingPush bid = some { r with localTail, ringStart } ∧
      Inv (l.record (.pushed bid))
        ⟨{ r with localTail, ringStart }, head, heap, posted, live', pc'⟩ := by
  have howned : bid ∈ owned l ⟨r, head, heap, posted, live, pc⟩ := by
    simp only [owned, Multiset.mem_add, Multiset.mem_coe]
    rcases List.mem_append.mp hmem with hlive | hunreg
    · exact .inl (.inl (.inr hlive))
    · exact .inr hunreg
  have helse : named posted ++ live.map GBuf.bid ++ l.lost ++ pc.unregistered r ≠ [] := by
    apply List.ne_nil_of_mem (a := bid)
    simp only [List.mem_append] at hmem ⊢
    rcases hmem with hlive | hunreg
    · exact .inl (.inl (.inr hlive))
    · exact .inr hunreg
  obtain ⟨localTail, ringStart, hpush, hring⟩ := h.ring.push (h.lt_of_mem howned) (h.room helse)
  refine ⟨localTail, ringStart, hpush, hring, ?_, h.posted, ?_, ?_⟩
  · have honce := h.once
    have hwaiting : (l.record (.pushed bid)).waiting = l.waiting ++ [bid] :=
      List.drop_append_of_le_length h.ring.taken_prefix.length_le
    change ↑(l.record (.pushed bid)).waiting + ↑(named posted) + ↑(live'.map GBuf.bid) +
      ↑l.lost + ↑(pc'.unregistered r) = (↑r.bids : Multiset UInt16)
    change ↑l.waiting + ↑(named posted) + ↑(live.map GBuf.bid) + ↑l.lost +
      ↑(pc.unregistered r) = (↑r.bids : Multiset UInt16) at honce
    rw [hwaiting, ← honce, ← Multiset.coe_add, Multiset.coe_singleton]
    calc
      (↑l.waiting + {bid} + ↑(named posted) + ↑(live'.map GBuf.bid) + ↑l.lost +
            ↑(pc'.unregistered r) : Multiset UInt16)
          = ↑l.waiting + ↑(named posted) + ↑l.lost +
              ({bid} + (↑(live'.map GBuf.bid) + ↑(pc'.unregistered r))) := by abel
      _ = ↑l.waiting + ↑(named posted) + ↑l.lost +
            (↑(live.map GBuf.bid) + ↑(pc.unregistered r)) := by rw [hmoves]
      _ = ↑l.waiting + ↑(named posted) + ↑(live.map GBuf.bid) + ↑l.lost +
            ↑(pc.unregistered r) := by abel
  · exact fun buf hbuf => h.live buf (hlive buf hbuf)
  · exact fun hidle => absurd hidle hpc

/-- The store of the tail publishes all pushes. -/
theorem sync (h : Inv l ⟨r, head, heap, posted, live, pc⟩) (hpc : pc.unregistered r = []) :
    Inv (l.record .published) ⟨r.bufRingSync, head, heap, posted, live, .idle⟩ where
  ring := h.ring.sync
  once := by
    have honce := h.once
    simp only [owned, hpc] at honce
    exact honce
  posted := h.posted
  live := h.live
  published_eq _ := rfl

theorem owned_def (l : Ledger) :
    owned l ⟨r, head, heap, posted, live, pc⟩ =
      ↑l.waiting + ↑(named posted) + ↑(live.map GBuf.bid) + ↑l.lost + ↑(pc.unregistered r) := rfl

/-- What waits in the ring is not named by a completion or under a handle. -/
theorem ne_of_waiting (h : Inv l ⟨r, head, heap, posted, live, pc⟩) {bid bid' : UInt16}
    (hbid : bid ∈ l.waiting) (hbid' : bid' ∈ named posted ++ live.map GBuf.bid) : bid' ≠ bid := by
  rintro rfl
  have hcount := h.count_le bid'
  have hwaiting := List.one_le_count_iff.mpr hbid
  have hother := List.one_le_count_iff.mpr hbid'
  simp only [owned_def, Multiset.count_add, Multiset.coe_count, List.count_append] at hcount hother
  omega

/-- The kernel's pick moves a buffer from the ring to a completion; the data of the buffers that
are in use stays. -/
theorem select (h : Inv l ⟨r, head, heap, posted, live, pc⟩) (data : List UInt8)
    (userData : UInt64) (low : UInt16) (hready : head ≠ r.sharedTail)
    (hfits : data.length ≤ (r.entryAt head).len.toNat) (hres : data.length < 2 ^ 31) :
    Inv (l.record (.selected (r.entryAt head).bid data))
      ⟨r, head + 1, fill heap (r.entryAt head).addr data,
        posted ++ [⟨userData, .ofNat data.length, Cqueue.bufferFlags (r.entryAt head).bid low⟩],
        live, pc⟩ := by
  have hwaiting := h.ring.waiting_select hready data
  obtain ⟨hlt, hview⟩ := h.ring.entry_eq hready
  have hbid : (r.entryAt head).bid = l.pushed[l.taken.length] :=
    congrArg (fun v => v.2.2) hview
  have haddr : r.stablePtr (r.entryAt head).bid = some (r.entryAt head).addr := by
    rw [hbid]
    exact (congrArg (fun v => v.1) hview).symm
  have hlen : (r.entryAt head).len = r.bufLen.toUInt32 := congrArg (fun v => v.2.1) hview
  have hcapacity : data.length ≤ r.bufLen.toNat := by
    apply hfits.trans
    rw [hlen, UInt64.toNat_toUInt32]
    exact Nat.mod_le _ _
  have hfresh {bid : UInt16} (hmem : bid ∈ named posted ++ live.map GBuf.bid) :
      bid ≠ (r.entryAt head).bid :=
    h.ne_of_waiting (by rw [hwaiting]; exact List.mem_cons_self) hmem
  obtain ⟨hnonneg, hnat⟩ := toNat_toUInt32_ofNat hres
  have hnew : Cqueue.bufferSelect (Cqueue.bufferFlags (r.entryAt head).bid low) =
      some (r.entryAt head).bid := Cqueue.bufferSelect_bufferFlags _ low
  refine ⟨h.ring.select hready data, ?_, ?_, ?_, h.published_eq⟩
  · have honce := h.once
    rw [owned_def, hwaiting, ← Multiset.cons_coe] at honce
    rw [owned_def, named_snoc_some hnew, ← honce, Ledger.record_selected_lost, ← Multiset.coe_add,
      ← Multiset.singleton_add, Multiset.coe_singleton]
    abel
  · intro cqe hcqe
    rcases List.mem_append.mp hcqe with hold | hlast
    · cases h.posted cqe hold with
      | failure hres hflags => exact .failure hres hflags
      | buffer hres hflags hlen filled =>
          have hne := hfresh (List.mem_append_left _ (mem_named hold hflags))
          refine .buffer hres hflags ?_ (filled.fill h.wf hne haddr)
          rw [Ledger.record_selected_data, Function.update_of_ne hne]
          exact hlen
    · obtain rfl := List.mem_singleton.mp hlast
      refine .buffer hnonneg hnew ?_ (Filled.filled haddr hcapacity)
      rw [Ledger.record_selected_data, Function.update_self]
      exact hnat
  · intro buf hbuf
    obtain ⟨filled, hlen⟩ := h.live buf hbuf
    have hne := hfresh (List.mem_append_right _ (List.mem_map_of_mem hbuf))
    refine ⟨filled.fill h.wf hne haddr, ?_⟩
    rw [Ledger.record_selected_data, Function.update_of_ne hne]
    exact hlen

theorem exhaust (h : Inv l ⟨r, head, heap, posted, live, pc⟩) (userData : UInt64) {res : Int32}
    (hres : res < 0) : Inv l ⟨r, head, heap, posted ++ [⟨userData, res, 0⟩], live, pc⟩ := by
  have hnone : Cqueue.bufferSelect 0 = none := rfl
  refine ⟨h.ring, ?_, ?_, h.live, h.published_eq⟩
  · have honce := h.once
    rw [owned_def] at honce ⊢
    rw [named_snoc_none hnone]
    exact honce
  · intro cqe hcqe
    rcases List.mem_append.mp hcqe with hold | hlast
    · exact h.posted cqe hold
    · obtain rfl := List.mem_singleton.mp hlast
      exact .failure hres hnone

/-- The completion that is taken next, when it names a buffer. -/
theorem reports (h : Inv l ⟨r, head, heap, cqe :: posted, live, pc⟩) (hres : 0 ≤ cqe.res) :
    ∃ bid, Cqueue.bufferSelect cqe.flags = some bid ∧
      cqe.res.toUInt32.toNat = (l.data bid).length ∧
      Filled r.stablePtr r.bufLen heap l.data bid := by
  cases h.posted cqe List.mem_cons_self with
  | failure hneg _ => exact absurd hres (Int32.not_le.mpr hneg)
  | buffer _ hflags hlen filled => exact ⟨_, hflags, hlen, filled⟩

/-- A handle made from the next completion takes over its buffer. -/
theorem take (h : Inv l ⟨r, head, heap, cqe :: posted, live, pc⟩) {bid : UInt16} {buf : GBuf}
    (hflags : Cqueue.bufferSelect cqe.flags = some bid) (hbuf : buf.bid = bid)
    (hlen : buf.len.toNat = (l.data bid).length)
    (filled : Filled r.stablePtr r.bufLen heap l.data bid) :
    Inv l ⟨r, head, heap, posted, live ++ [buf], pc⟩ := by
  refine ⟨h.ring, ?_, ?_, ?_, h.published_eq⟩
  · have honce := h.once
    rw [owned_def, named_cons_some hflags, ← Multiset.cons_coe] at honce
    rw [owned_def, List.map_append, ← honce, ← Multiset.coe_add, ← Multiset.singleton_add,
      List.map_singleton, hbuf, Multiset.coe_singleton]
    abel
  · exact fun cqe' hcqe' => h.posted cqe' (List.mem_cons_of_mem _ hcqe')
  · intro buf' hbuf'
    rcases List.mem_append.mp hbuf' with hold | hlast
    · exact h.live buf' hold
    · obtain rfl := List.mem_singleton.mp hlast
      subst hbuf
      exact ⟨filled, hlen⟩

/-- With `get_buf` there is one handle. -/
theorem getBuf_eq {res flags : UInt32} {bid : UInt16} {buf : GBuf}
    (hflags : Cqueue.bufferSelect flags = some bid) (hbuf : r.getBuf res flags = some buf) :
    buf.bid = bid ∧ buf.len.toNat = res.toNat := by
  rw [InnerBufRing.getBuf, hflags, Option.bind_eq_bind, Option.bind_some,
    Option.ite_none_right_eq_some] at hbuf
  obtain ⟨hle, hnew⟩ := hbuf
  rw [GBuf.new, if_pos hle] at hnew
  obtain rfl := Option.some.inj hnew
  exact ⟨rfl, UInt32.toNat_toUInt64 res⟩

/-- With `get_bufs` there is one handle, or none if there is no data. -/
theorem getBufs_eq (wf : r.WellFormed) {res flags : UInt32} {bid : UInt16} {bufs : List GBuf}
    (hflags : Cqueue.bufferSelect flags = some bid) (hle : res.toNat ≤ r.bufLen.toNat)
    (hbufs : r.getBufs res flags = some bufs) :
    (res.toNat = 0 ∧ bufs = []) ∨
      (0 < res.toNat ∧ ∃ buf, bufs = [buf] ∧ buf.bid = bid ∧ buf.len.toNat = res.toNat) := by
  obtain ⟨bufs', hbufs', bundle⟩ := @getBufs_spec r wf.bufLen_pos res flags bid hflags
  obtain rfl := Option.some.inj (hbufs.symm.trans hbufs')
  have hpos := wf.bufLen_pos
  have hlength := bundle.length_eq
  rcases Nat.eq_zero_or_pos res.toNat with hzero | hsome
  · refine .inl ⟨hzero, List.length_eq_zero_iff.mp ?_⟩
    rw [hlength, hzero, Nat.zero_add]
    exact Nat.div_eq_of_lt (by omega)
  · rw [chunks_succ hsome hpos, Nat.sub_eq_zero_of_le hle, Nat.zero_add,
      Nat.div_eq_of_lt (by omega), Nat.zero_add] at hlength
    obtain ⟨buf, rfl⟩ := List.length_eq_one_iff.mp hlength
    refine .inr ⟨hsome, buf, rfl, ?_, ?_⟩
    · exact (bundle.bid_eq 0 (by simp)).trans (UInt16.add_zero bid)
    · have hlen := bundle.len_eq 0 (by simp)
      rw [List.getElem_cons_zero, Nat.zero_mul, Nat.sub_zero, Nat.min_eq_right hle] at hlen
      exact hlen

/-- A completion that is dropped without a handle: it named none, or its buffer is lost. -/
theorem discard (h : Inv l ⟨r, head, heap, cqe :: posted, live, pc⟩) :
    (∀ bid, Cqueue.bufferSelect cqe.flags = some bid →
        Inv (l.record (.lost bid)) ⟨r, head, heap, posted, live, pc⟩) ∧
      (Cqueue.bufferSelect cqe.flags = none → Inv l ⟨r, head, heap, posted, live, pc⟩) := by
  have honce := h.once
  have hposted : ∀ cqe' ∈ posted, Reports r.stablePtr r.bufLen heap l.data cqe' :=
    fun cqe' hcqe' => h.posted cqe' (List.mem_cons_of_mem _ hcqe')
  rw [owned_def] at honce
  constructor
  · intro bid hflags
    refine ⟨{ h.ring with }, ?_, hposted, h.live, h.published_eq⟩
    rw [named_cons_some hflags, ← Multiset.cons_coe] at honce
    change ↑l.waiting + ↑(named posted) + ↑(live.map GBuf.bid) + ↑(l.lost ++ [bid]) +
      ↑(pc.unregistered r) = (↑r.bids : Multiset UInt16)
    rw [← honce, ← Multiset.coe_add, ← Multiset.singleton_add, Multiset.coe_singleton]
    abel
  · intro hflags
    refine ⟨h.ring, ?_, hposted, h.live, h.published_eq⟩
    rw [named_cons_none hflags] at honce
    exact honce

/-- Every step keeps the invariant. -/
theorem step {s s' : State} {e : Event} (h : Inv l s) (hstep : Step s e s') :
    Inv (l.record e) s' := by
  cases hstep with
  | @registerPush r head heap posted live next r' hnext hpush =>
      have hdrop := unregistered_eq_cons hnext
      obtain ⟨localTail, ringStart, hpush', inv⟩ :=
        @Inv.push l r head heap posted live _ (.registering (next + 1)) h (.ofNat next) live
          (List.mem_append_right _ (by rw [hdrop]; exact List.mem_cons_self)) (fun _ hbuf => hbuf)
          (by rw [hdrop, ← Multiset.cons_coe, ← Multiset.singleton_add]; abel) nofun
      obtain rfl := Option.some.inj (hpush.symm.trans hpush')
      exact inv
  | @registerSync r head heap posted live =>
      apply h.sync
      rw [Pc.unregistered, InnerBufRing.bids]
      exact List.drop_of_length_le (by simp)
  | select data userData low hready hfits hres => exact h.select data userData low hready hfits hres
  | exhaust userData res _ hres => exact h.exhaust userData hres
  | @reap r head heap cqe posted live buf hres hget =>
      obtain ⟨bid, hflags, hlen, filled⟩ := h.reports hres
      obtain ⟨hbid, hbuf⟩ := getBuf_eq hflags hget
      exact h.take hflags hbid (hbuf.trans hlen) filled
  | @reapAll r head heap cqe posted live buf bufs hres hget =>
      obtain ⟨bid, hflags, hlen, filled⟩ := h.reports hres
      have hle : cqe.res.toUInt32.toNat ≤ r.bufLen.toNat := by
        obtain ⟨-, -, -, hcapacity⟩ := filled
        exact hlen.trans_le hcapacity
      rcases getBufs_eq h.wf hflags hle hget with ⟨-, hnil⟩ | ⟨-, buf', hcons, hbid, hbuf⟩
      · exact absurd hnil (List.cons_ne_nil _ _)
      · obtain ⟨rfl, rfl⟩ := List.cons.inj hcons
        exact h.take hflags hbid (hbuf.trans hlen) filled
  | @reapNothing r head heap cqe posted live bid hres hget hbid => exact h.discard.1 bid hbid
  | @fail r head heap cqe posted live hres =>
      apply h.discard.2
      cases h.posted cqe List.mem_cons_self with
      | failure _ hflags => exact hflags
      | buffer hnonneg _ _ _ => exact absurd hnonneg (Int32.not_le.mpr hres)
  | @dropPush r head heap posted after r' before buf hpush =>
      have hmem : buf.bid ∈ (before ++ buf :: after).map GBuf.bid ++ Pc.unregistered r .idle :=
        List.mem_append_left _ (List.mem_map_of_mem (by simp))
      obtain ⟨localTail, ringStart, hpush', inv⟩ :=
        @Inv.push l r head heap posted _ .idle .dropping h buf.bid (before ++ after) hmem
          (by
            intro buf' hbuf'
            rcases List.mem_append.mp hbuf' with hbefore | hafter
            · exact List.mem_append_left _ hbefore
            · exact List.mem_append_right _ (List.mem_cons_of_mem _ hafter))
          (by
            rw [List.map_append, List.map_append, List.map_cons, ← Multiset.coe_add,
              ← Multiset.coe_add, ← Multiset.cons_coe, ← Multiset.singleton_add]
            abel) nofun
      obtain rfl := Option.some.inj (hpush.symm.trans hpush')
      exact inv
  | dropSync => exact h.sync rfl

end Inv

end IoUring.BufRing
