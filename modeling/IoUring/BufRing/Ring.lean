import IoUring.Cqueue.Entry
import IoUring.Foundation.Usize
import IoUring.Foundation.WrappingCounter
import Mathlib.Logic.Function.Basic

/-!
# A ring of provided buffers

Buffers of one length that the kernel picks from by itself. The entries that
describe them lie in a ring whose tail is the reserved word of its first entry;
a completion names the buffer it used, and the buffer goes back into the ring
when its handle is dropped. A panic is `none`, and so is the end of the process
when the allocator has nothing left.
-/

namespace IoUring.BufRing

/-- `io_uring_buf`. -/
structure BufRingEntry where
  addr : UInt64
  len : UInt32
  bid : UInt16
  resv : UInt16
  deriving DecidableEq

namespace BufRingEntry

def setAddr (re : BufRingEntry) (addr : UInt64) : BufRingEntry := { re with addr }

def setLen (re : BufRingEntry) (len : UInt32) : BufRingEntry := { re with len }

def setBid (re : BufRingEntry) (bid : UInt16) : BufRingEntry := { re with bid }

/-- The ring's tail, given its base. -/
def tail (ringBase : Nat → BufRingEntry) : UInt16 := (ringBase 0).resv

/-- A store through the pointer that `tail` gives. -/
def storeTail (ringBase : Nat → BufRingEntry) (tail : UInt16) : Nat → BufRingEntry :=
  Function.update ringBase 0 { ringBase 0 with resv := tail }

end BufRingEntry

/-- `std::io::Error`, as far as these functions construct it. -/
inductive Error where
  | invalidInput
  | other (message : String)
  | os (errno : Int32)
  deriving DecidableEq

/-- The operating system and the allocator: whether a mapping of this length is made and can be
kept from child processes, and where as many buffers are allocated, if there is room. -/
structure Host where
  mmap : Nat → Except Int32 Unit
  dontfork : Nat → Except Int32 Unit
  buffers : (bufCnt : UInt16) → (bufLen : UInt64) →
    Option { addrs : List UInt64 // addrs.length = bufCnt.toNat ∧ addrs.Nodup }

/-- `isize::MAX`, beyond which no allocation is attempted. -/
def isizeMax : UInt64 := 0x7FFFFFFFFFFFFFFF

/-- The loop of `vec![0; buf_len]`: the capacity overflows, or the allocator gives the buffers
or ends the process. -/
def Host.vecs (host : Host) (bufCnt : UInt16) (bufLen : UInt64) : Option (List UInt64) :=
  if isizeMax < bufLen then none else (host.buffers bufCnt bufLen).map Subtype.val

/-- `InnerBufRing`, with the addresses of its buffers for `buf_list`. -/
structure InnerBufRing where
  bgid : UInt16
  ringEntriesMask : UInt16
  bufCnt : UInt16
  bufLen : UInt64
  ringStart : Nat → BufRingEntry
  bufList : List UInt64
  localTail : UInt16
  flags : UInt16

/-- A buffer filled in by the kernel and named by a completion. -/
structure GBuf where
  len : UInt64
  bid : UInt16
  deriving DecidableEq

def GBuf.new (bufLen : UInt64) (bid : UInt16) (len : UInt64) : Option GBuf :=
  if len ≤ bufLen then some { len, bid } else none

namespace InnerBufRing

/-- The result of the mapping is unwrapped, that of `dontfork` is handed on. -/
def new (host : Host) (bgid ringEntries bufCnt : UInt16) (bufLen : UInt64) (flags : UInt16) :
    Option (Except Error InnerBufRing) :=
  if bufCnt == 0 || bufCnt > ringEntries || bufLen == 0 ||
      ringEntries &&& (ringEntries - 1) != 0 then
    some (.error .invalidInput)
  else
    match host.mmap (16 * ringEntries.toNat) with
    | .error _ => none
    | .ok () =>
        match host.dontfork (16 * ringEntries.toNat) with
        | .error errno => some (.error (.os errno))
        | .ok () => do
            let bufList ← host.vecs bufCnt bufLen
            some (.ok
              { bgid
                ringEntriesMask := ringEntries - 1
                bufCnt
                bufLen
                ringStart := fun _ => ⟨0, 0, 0, 0⟩
                bufList
                localTail := 0
                flags })

variable (r : InnerBufRing)

def mask : UInt16 := r.ringEntriesMask

def ringEntries : UInt16 := r.ringEntriesMask + 1

def sharedTail : UInt16 := BufRingEntry.tail r.ringStart

def stablePtr (bid : UInt16) : Option UInt64 := r.bufList[bid.toNat]?

/-- The entry that is written for a buffer, over whatever the reserved word is. -/
def bufRingPush (bid : UInt16) : Option InnerBufRing :=
  if bid < r.bufCnt then do
    let oldTail := r.localTail
    let ringIdx := (oldTail &&& r.mask).toNat
    let addr ← r.stablePtr bid
    let re := (((r.ringStart ringIdx).setAddr addr).setLen r.bufLen.toUInt32).setBid bid
    some { r with
      localTail := oldTail + 1
      ringStart := Function.update r.ringStart ringIdx re }
  else none

def bufRingSync : InnerBufRing :=
  { r with ringStart := BufRingEntry.storeTail r.ringStart r.localTail }

def getBuf (res flags : UInt32) : Option GBuf := do
  let bid ← Cqueue.bufferSelect flags
  let len := res.toUInt64
  if len ≤ r.bufLen then GBuf.new r.bufLen bid len else none

/-- The loop of `get_bufs`; each turn takes at least one byte from a length above zero. -/
def getBufsLoop (bufLen : UInt64) : (turns : Nat) → (bid : UInt16) → (len : UInt64) →
    Option (List GBuf)
  | 0, _, _ => some []
  | turns + 1, bid, len =>
      if 0 < len then do
        let buf ← GBuf.new bufLen bid (min len bufLen)
        let rest ← getBufsLoop bufLen turns (bid + 1) (if len < bufLen then 0 else len - bufLen)
        some (buf :: rest)
      else some []

def getBufs (res flags : UInt32) : Option (List GBuf) := do
  let bid ← Cqueue.bufferSelect flags
  getBufsLoop r.bufLen res.toNat bid res.toUInt64

/-- What the documentation of the fields promises, and that the buffers are distinct. -/
structure WellFormed : Prop where
  mask_eq : ∃ k ≤ 15, r.ringEntriesMask.toNat + 1 = 2 ^ k
  bufCnt_pos : 0 < r.bufCnt.toNat
  bufCnt_le : r.bufCnt.toNat ≤ r.ringEntriesMask.toNat + 1
  bufLen_pos : 0 < r.bufLen.toNat
  length_bufList : r.bufList.length = r.bufCnt.toNat
  nodup_bufList : r.bufList.Nodup

end InnerBufRing

/-- The data in a buffer, on a heap that has the bytes of each allocation. -/
def GBuf.asSlice (buf : GBuf) (r : InnerBufRing) (heap : UInt64 → List UInt8) :
    Option (List UInt8) :=
  (r.stablePtr buf.bid).map fun addr => (heap addr).take buf.len.toNat

/-! ## The builder -/

/-- `u16::next_power_of_two`. -/
def nextPowerOfTwo (n : UInt16) : UInt16 :=
  if n.toNat ≤ 1 then 1 else .ofNat (2 ^ ((n.toNat - 1).log2 + 1))

structure Builder where
  bgid : UInt16
  ringEntries : UInt16
  bufCnt : UInt16
  bufLen : UInt64
  flags : UInt16

namespace Builder

def new (bgid : UInt16) : Builder where
  bgid := bgid
  ringEntries := 128
  bufCnt := 0
  bufLen := 4096
  flags := 0

def registerFlags (b : Builder) (flags : UInt16) : Builder := { b with flags }

def setRingEntries (b : Builder) (ringEntries : UInt16) : Builder := { b with ringEntries }

def setBufCnt (b : Builder) (bufCnt : UInt16) : Builder := { b with bufCnt }

def setBufLen (b : Builder) (bufLen : UInt64) : Builder := { b with bufLen }

/-- Two cases where both numbers are set to the larger of the two. -/
def levelled (b : Builder) : Builder :=
  if b.bufCnt == 0 || b.ringEntries < b.bufCnt then
    let max := max b.ringEntries b.bufCnt
    { b with bufCnt := max, ringEntries := max }
  else b

def build (host : Host) (b : Builder) : Option (Except Error InnerBufRing) :=
  let b := b.levelled
  if b.ringEntries > 32768 then some (.error (.other "ring_entries exceeded 32768"))
  else InnerBufRing.new host b.bgid (nextPowerOfTwo b.ringEntries) b.bufCnt b.bufLen b.flags

end Builder

/-- The next power of two is the least one that is not below the number. -/
theorem nextPowerOfTwo_spec {n : UInt16} (h : n.toNat ≤ 32768) :
    ∃ k ≤ 15, (nextPowerOfTwo n).toNat = 2 ^ k ∧ n.toNat ≤ 2 ^ k ∧
      ∀ j, n.toNat ≤ 2 ^ j → k ≤ j := by
  unfold nextPowerOfTwo
  split
  · exact ⟨0, by omega, rfl, by omega, fun _ _ => Nat.zero_le _⟩
  · rename_i hlarge
    have hne : n.toNat - 1 ≠ 0 := by omega
    have hlow := Nat.log2_self_le hne
    have hhigh := @Nat.lt_log2_self (n.toNat - 1)
    have hlog : (n.toNat - 1).log2 < 15 := (Nat.log2_lt hne).mpr (by omega)
    have hpow : 2 ^ ((n.toNat - 1).log2 + 1) ≤ 2 ^ 15 := Nat.pow_le_pow_right (by omega) hlog
    refine ⟨(n.toNat - 1).log2 + 1, hlog, ?_, by omega, ?_⟩
    · exact UInt16.toNat_ofNat_of_lt' (show _ < 2 ^ 16 by omega)
    · intro j hj
      apply Nat.succ_le_of_lt
      apply (Nat.log2_lt hne).mpr
      omega

theorem two_pow_and_pred {n : UInt16} {k : Nat} (h : n.toNat = 2 ^ k) : n &&& (n - 1) = 0 := by
  have hpos := Nat.two_pow_pos k
  have hpred : (n - 1).toNat = 2 ^ k - 1 := by
    rw [UInt16.toNat_sub_of_le _ _ (by rw [UInt16.le_iff_toNat_le]; exact h ▸ hpos), h]
    rfl
  apply UInt16.toNat_inj.mp
  rw [UInt16.toNat_and, hpred, h, Nat.and_two_pow_sub_one_eq_mod, Nat.mod_self]
  rfl

namespace Builder

/-- Only the two numbers change. -/
theorem levelled_frame (b : Builder) :
    b.levelled = { b with
      ringEntries := b.levelled.ringEntries
      bufCnt := b.levelled.bufCnt } := by
  unfold levelled
  split <;> rfl

/-- The larger of the two numbers, and the number of buffers that were asked for. -/
theorem levelled_eq (b : Builder) :
    b.levelled.ringEntries.toNat = Nat.max b.ringEntries.toNat b.bufCnt.toNat ∧
      b.levelled.bufCnt = if b.bufCnt = 0 then b.ringEntries else b.bufCnt := by
  have hmax : max b.ringEntries b.bufCnt =
      if b.ringEntries ≤ b.bufCnt then b.bufCnt else b.ringEntries := rfl
  unfold levelled
  by_cases hzero : b.bufCnt = 0
  · have hle : b.ringEntries ≤ b.bufCnt ↔ b.ringEntries.toNat = 0 := by
      rw [UInt16.le_iff_toNat_le, hzero]
      exact Nat.le_zero
    rw [if_pos (by simp [hzero]), hmax, if_pos hzero]
    split
    · rename_i hring
      have hring' : b.ringEntries = 0 := UInt16.toNat_inj.mp (hle.mp hring)
      rw [hzero, hring']
      exact ⟨rfl, rfl⟩
    · rw [hzero]
      exact ⟨(Nat.max_eq_left (Nat.zero_le _)).symm, rfl⟩
  · rw [if_neg hzero]
    by_cases hlt : b.ringEntries < b.bufCnt
    · have hle : b.ringEntries.toNat ≤ b.bufCnt.toNat :=
        Nat.le_of_lt (UInt16.lt_iff_toNat_lt.mp hlt)
      rw [if_pos (by simp [hlt]), hmax, if_pos (UInt16.le_iff_toNat_le.mpr hle)]
      exact ⟨(Nat.max_eq_right hle).symm, rfl⟩
    · have hle : b.bufCnt.toNat ≤ b.ringEntries.toNat :=
        Nat.le_of_not_lt fun h => hlt (UInt16.lt_iff_toNat_lt.mpr h)
      rw [if_neg (by simp [hzero, hlt])]
      exact ⟨(Nat.max_eq_left hle).symm, rfl⟩

theorem levelled_bufCnt_le (b : Builder) :
    b.levelled.bufCnt.toNat ≤ Nat.max b.ringEntries.toNat b.bufCnt.toNat := by
  rw [b.levelled_eq.2]
  split
  · exact Nat.le_max_left _ _
  · exact Nat.le_max_right _ _

theorem levelled_bufCnt_eq_zero_iff (b : Builder) :
    b.levelled.bufCnt = 0 ↔ Nat.max b.ringEntries.toNat b.bufCnt.toNat = 0 := by
  have hle := Nat.le_max_right b.ringEntries.toNat b.bufCnt.toNat
  rw [b.levelled_eq.2, ← UInt16.toNat_inj, UInt16.toNat_zero]
  split
  · rename_i hzero
    rw [hzero, UInt16.toNat_zero]
    exact Iff.of_eq (congrArg (· = 0) (Nat.max_eq_left (Nat.zero_le _)).symm)
  · rename_i hne
    have hpos : b.bufCnt.toNat ≠ 0 := fun h => hne (UInt16.toNat_inj.mp h)
    constructor
    · intro h
      exact absurd h hpos
    · intro h
      exact absurd (Nat.le_zero.mp (h ▸ hle)) hpos

end Builder

theorem Host.vecs_eq_none {host : Host} {bufCnt : UInt16} {bufLen : UInt64}
    (h : isizeMax < bufLen ∨ host.buffers bufCnt bufLen = none) :
    host.vecs bufCnt bufLen = none := by
  rcases h with hlong | hnone
  · exact if_pos hlong
  · rw [vecs, hnone]
    split <;> rfl

theorem Host.vecs_eq_some {host : Host} {bufCnt : UInt16} {bufLen : UInt64}
    {addrs : { addrs : List UInt64 // addrs.length = bufCnt.toNat ∧ addrs.Nodup }}
    (hle : bufLen ≤ isizeMax) (h : host.buffers bufCnt bufLen = some addrs) :
    host.vecs bufCnt bufLen = some addrs.val := by
  rw [vecs, if_neg (UInt64.not_lt.mpr hle), h, Option.map_some]

/-- What comes of a ring of `2 ^ k` entries, by what the host answers. -/
structure Outcome (host : Host) (k : Nat) (bgid bufCnt : UInt16) (bufLen : UInt64) (flags : UInt16)
    (result : Option (Except Error InnerBufRing)) : Prop where
  unmapped : ∀ errno, host.mmap (16 * 2 ^ k) = .error errno → result = none
  forked : host.mmap (16 * 2 ^ k) = .ok () → ∀ errno,
    host.dontfork (16 * 2 ^ k) = .error errno → result = some (.error (.os errno))
  unallocated : host.mmap (16 * 2 ^ k) = .ok () → host.dontfork (16 * 2 ^ k) = .ok () →
    isizeMax < bufLen ∨ host.buffers bufCnt bufLen = none → result = none
  built : host.mmap (16 * 2 ^ k) = .ok () → host.dontfork (16 * 2 ^ k) = .ok () →
    bufLen ≤ isizeMax → ∀ addrs, host.buffers bufCnt bufLen = some addrs →
      ∃ r, result = some (.ok r) ∧ r.WellFormed ∧ r.ringEntries.toNat = 2 ^ k ∧
        r.bufCnt = bufCnt ∧ r.bufLen = bufLen ∧ r.bufList = addrs.val ∧ r.bgid = bgid ∧
        r.flags = flags ∧ r.localTail = 0 ∧ r.sharedTail = 0

/-- `InnerBufRing::new` for a power of two of entries. -/
theorem InnerBufRing.new_spec {host : Host} {bgid ringEntries bufCnt : UInt16} {bufLen : UInt64}
    {flags : UInt16} {k : Nat} (hk : k ≤ 15) (hpow : ringEntries.toNat = 2 ^ k) :
    (bufCnt = 0 ∨ ringEntries < bufCnt ∨ bufLen = 0 →
        new host bgid ringEntries bufCnt bufLen flags = some (.error .invalidInput)) ∧
      (bufCnt ≠ 0 → bufCnt ≤ ringEntries → bufLen ≠ 0 →
        Outcome host k bgid bufCnt bufLen flags
          (new host bgid ringEntries bufCnt bufLen flags)) := by
  have hmask : (ringEntries &&& (ringEntries - 1) != 0) = false := by
    rw [two_pow_and_pred hpow]
    rfl
  have hpos := Nat.two_pow_pos k
  have hpred : (ringEntries - 1).toNat + 1 = 2 ^ k := by
    rw [UInt16.toNat_sub_of_le _ _ (by rw [UInt16.le_iff_toNat_le, hpow]; exact hpos), hpow]
    exact Nat.sub_add_cancel hpos
  constructor
  · intro hbad
    apply if_pos
    rw [hmask]
    simpa [or_assoc] using hbad
  · intro hcnt hle hlen
    have hgood : ¬ (bufCnt == 0 || bufCnt > ringEntries || bufLen == 0 ||
        ringEntries &&& (ringEntries - 1) != 0) = true := by
      rw [hmask]
      simp [hcnt, hle, hlen]
    rw [new, if_neg hgood, hpow]
    constructor
    · intro errno hmmap
      rw [hmmap]
    · intro hmmap errno hfork
      rw [hmmap, hfork]
    · intro hmmap hfork hnothing
      rw [hmmap, hfork, Host.vecs_eq_none hnothing]
      rfl
    · intro hmmap hfork hmax addrs hbuffers
      rw [hmmap, hfork, Host.vecs_eq_some hmax hbuffers]
      refine ⟨_, rfl, ?_, ?_, rfl, rfl, rfl, rfl, rfl, rfl, rfl⟩
      · exact {
          mask_eq := ⟨k, hk, hpred⟩
          bufCnt_pos := Nat.pos_of_ne_zero fun h => hcnt (UInt16.toNat_inj.mp h)
          bufCnt_le := by
            rw [hpred, ← hpow]
            exact UInt16.le_iff_toNat_le.mp hle
          bufLen_pos := Nat.pos_of_ne_zero fun h => hlen (UInt64.toNat_inj.mp h)
          length_bufList := addrs.property.1
          nodup_bufList := addrs.property.2 }
      · rw [← hpow]
        exact congrArg _ (UInt16.sub_add_cancel ringEntries 1)

/-- `build` for every setting and every host: more than 32768 entries or buffers, none of either,
and empty buffers are refused, each with its error; otherwise, unless the host fails it, the ring
is well-formed and empty, has the least power of two of entries that is enough, and the buffers
that were asked for. -/
theorem build_spec (host : Host) (b : Builder) :
    let most := Nat.max b.ringEntries.toNat b.bufCnt.toNat
    (32768 < most → b.build host = some (.error (.other "ring_entries exceeded 32768"))) ∧
      (most ≤ 32768 → most = 0 ∨ b.bufLen = 0 → b.build host = some (.error .invalidInput)) ∧
      (0 < most → most ≤ 32768 → b.bufLen ≠ 0 →
        ∃ k ≤ 15, most ≤ 2 ^ k ∧ (∀ j, most ≤ 2 ^ j → k ≤ j) ∧
          Outcome host k b.bgid (if b.bufCnt = 0 then b.ringEntries else b.bufCnt) b.bufLen b.flags
            (b.build host)) := by
  intro most
  obtain ⟨hentries, hcnt⟩ := b.levelled_eq
  have hmost : b.levelled.ringEntries.toNat = most := hentries
  have hcntLe : b.levelled.bufCnt.toNat ≤ most := b.levelled_bufCnt_le
  have hcntZero : b.levelled.bufCnt = 0 ↔ most = 0 := b.levelled_bufCnt_eq_zero_iff
  have hlarge : b.levelled.ringEntries > 32768 ↔ 32768 < most := by
    rw [← hmost]
    exact UInt16.lt_iff_toNat_lt
  have hbuild (hle : most ≤ 32768) : b.build host = InnerBufRing.new host b.bgid
      (nextPowerOfTwo b.levelled.ringEntries) b.levelled.bufCnt b.bufLen b.flags := by
    rw [Builder.build, if_neg (fun h => Nat.not_lt.mpr hle (hlarge.mp h)), b.levelled_frame]
  refine ⟨fun h => if_pos (hlarge.mpr h), ?_, ?_⟩
  · intro hle hbad
    obtain ⟨k, hk, hpow, -, -⟩ := nextPowerOfTwo_spec (hmost.trans_le hle)
    rw [hbuild hle]
    apply (InnerBufRing.new_spec hk hpow).1
    rcases hbad with hzero | hlen
    · exact .inl (hcntZero.mpr hzero)
    · exact .inr (.inr hlen)
  · intro hpos hle hlen
    obtain ⟨k, hk, hpow, henough, hleast⟩ := nextPowerOfTwo_spec (hmost.trans_le hle)
    rw [hmost] at henough hleast
    have hroom : b.levelled.bufCnt ≤ nextPowerOfTwo b.levelled.ringEntries := by
      rw [UInt16.le_iff_toNat_le, hpow]
      exact Nat.le_trans hcntLe henough
    have hne : b.levelled.bufCnt ≠ 0 := fun h => Nat.ne_of_gt hpos (hcntZero.mp h)
    refine ⟨k, hk, henough, hleast, ?_⟩
    rw [← hcnt, hbuild hle]
    exact (InnerBufRing.new_spec hk hpow).2 hne hroom hlen

/-! ## Bundles -/

/-- A length above zero takes one handle more than what is left behind the first buffer. -/
theorem chunks_succ {len bufLen : Nat} (hlen : 0 < len) (hpos : 0 < bufLen) :
    (len + bufLen - 1) / bufLen = (len - bufLen + bufLen - 1) / bufLen + 1 := by
  by_cases hlast : len < bufLen
  · have hzero : len - bufLen + bufLen - 1 = bufLen - 1 := by omega
    have hone : len + bufLen - 1 = len - 1 + bufLen := by omega
    rw [hzero, hone, Nat.add_div_right _ hpos, Nat.div_eq_of_lt (by omega),
      Nat.div_eq_of_lt (by omega)]
  · have hrest : len - bufLen + bufLen - 1 = len - 1 := by omega
    have hall : len + bufLen - 1 = len - 1 + bufLen := by omega
    rw [hrest, hall, Nat.add_div_right _ hpos]

/-- The handles of a bundle: consecutive ids, every buffer but the last full, all the bytes. -/
structure Bundle (bufLen : Nat) (bid : UInt16) (len : Nat) (bufs : List GBuf) : Prop where
  length_eq : bufs.length = (len + bufLen - 1) / bufLen
  sum_eq : (bufs.map fun buf => buf.len.toNat).sum = len
  bid_eq : ∀ i (h : i < bufs.length), bufs[i].bid = bid + .ofNat i
  len_eq : ∀ i (h : i < bufs.length), bufs[i].len.toNat = min bufLen (len - i * bufLen)

theorem Bundle.nil {bufLen : Nat} (hpos : 0 < bufLen) (bid : UInt16) : Bundle bufLen bid 0 [] where
  length_eq := by
    rw [Nat.zero_add, Nat.div_eq_of_lt (by omega)]
    rfl
  sum_eq := rfl
  bid_eq _ h := absurd h (Nat.not_lt_zero _)
  len_eq _ h := absurd h (Nat.not_lt_zero _)

theorem Bundle.cons {bufLen len : Nat} {bid : UInt16} {bufs : List GBuf} {buf : GBuf}
    (hpos : 0 < bufLen) (hlen : 0 < len) (hbid : buf.bid = bid)
    (hbuf : buf.len.toNat = min len bufLen)
    (h : Bundle bufLen (bid + 1) (len - bufLen) bufs) : Bundle bufLen bid len (buf :: bufs) where
  length_eq := by
    rw [List.length_cons, h.length_eq, chunks_succ hlen hpos]
  sum_eq := by
    rw [List.map_cons, List.sum_cons, h.sum_eq, hbuf]
    omega
  bid_eq i hi := by
    cases i with
    | zero => simp [hbid]
    | succ i =>
        rw [List.getElem_cons_succ, h.bid_eq, Nat.add_comm i 1, UInt16.ofNat_add, UInt16.add_assoc]
        rfl
  len_eq i hi := by
    cases i with
    | zero =>
        rw [List.getElem_cons_zero, hbuf, Nat.zero_mul, Nat.sub_zero, Nat.min_comm]
    | succ i =>
        rw [List.getElem_cons_succ, h.len_eq, Nat.sub_sub, Nat.succ_mul, Nat.add_comm bufLen]

/-- The loop stops with the length at zero, long before its turns are used up. -/
theorem getBufsLoop_spec {bufLen : UInt64} (hpos : 0 < bufLen.toNat) {turns : Nat} {bid : UInt16}
    {len : UInt64} (hturns : len.toNat ≤ turns) :
    ∃ bufs, InnerBufRing.getBufsLoop bufLen turns bid len = some bufs ∧
      Bundle bufLen.toNat bid len.toNat bufs := by
  induction turns generalizing bid len with
  | zero =>
      obtain hzero : len.toNat = 0 := Nat.le_zero.mp hturns
      refine ⟨[], rfl, ?_⟩
      rw [hzero]
      exact Bundle.nil hpos bid
  | succ turns ih =>
      by_cases hlen : 0 < len
      · have hlenNat : 0 < len.toNat := UInt64.lt_iff_toNat_lt.mp hlen
        have hmin : (min len bufLen).toNat = min len.toNat bufLen.toNat :=
          Foundation.toNat_min len bufLen
        have hnew : GBuf.new bufLen bid (min len bufLen) = some ⟨min len bufLen, bid⟩ := by
          apply if_pos
          rw [UInt64.le_iff_toNat_le, hmin]
          exact Nat.min_le_right _ _
        have hrest : (if len < bufLen then 0 else len - bufLen).toNat =
            len.toNat - bufLen.toNat := by
          split
          · rename_i hlt
            have hlt' := UInt64.lt_iff_toNat_lt.mp hlt
            rw [UInt64.toNat_zero]
            omega
          · rename_i hge
            have hge' : ¬ len.toNat < bufLen.toNat :=
              fun h => hge (UInt64.lt_iff_toNat_lt.mpr h)
            have hle : bufLen ≤ len := UInt64.le_iff_toNat_le.mpr (Nat.le_of_not_lt hge')
            rw [UInt64.toNat_sub_of_le _ _ hle]
        obtain ⟨bufs, hloop, hbundle⟩ := @ih (bid + 1) (if len < bufLen then 0 else len - bufLen)
          (by rw [hrest]; omega)
        rw [hrest] at hbundle
        refine ⟨⟨min len bufLen, bid⟩ :: bufs, ?_, hbundle.cons hpos hlenNat rfl hmin⟩
        rw [InnerBufRing.getBufsLoop, if_pos hlen, hnew]
        simp only [hloop, Option.bind_eq_bind, Option.bind_some]
      · have hzero : len.toNat = 0 :=
          Nat.le_zero.mp (Nat.le_of_not_lt fun h => hlen (UInt64.lt_iff_toNat_lt.mpr h))
        refine ⟨[], if_neg hlen, ?_⟩
        rw [hzero]
        exact Bundle.nil hpos bid

theorem getBufs_spec {r : InnerBufRing} (hpos : 0 < r.bufLen.toNat) {res flags : UInt32}
    {bid : UInt16} (hsel : Cqueue.bufferSelect flags = some bid) :
    ∃ bufs, r.getBufs res flags = some bufs ∧ Bundle r.bufLen.toNat bid res.toNat bufs := by
  have hlen : res.toUInt64.toNat = res.toNat := UInt32.toNat_toUInt64 res
  rw [InnerBufRing.getBufs, hsel, ← hlen]
  exact getBufsLoop_spec hpos (Nat.le_of_eq hlen)

end IoUring.BufRing
