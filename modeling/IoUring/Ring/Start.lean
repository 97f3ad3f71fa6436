import IoUring.Ring.Bounds
import IoUring.Ring.Refinement

/-!
# A ring from its set-up on

What `with_fd_and_params` leaves in the mappings is the image of two rings: the
pointers are those of the parameters, every place is inside its mapping, and the
array is the identity. So the mapped ring of every set-up refines the ring, and
what is proved of all runs of the ring holds of the bytes.
-/

namespace IoUring

open Foundation (Packed Place Regions Run)

/-- A ring of a power of two of entries with the mask one below it. -/
def RingSize.ofLog2 (entries : UInt32) (log2 : Nat) (h : log2 ≤ 31)
    (hentries : entries.toNat = 2 ^ log2) : RingSize where
  ringEntries := entries
  ringMask := entries - 1
  log2 := log2
  log2_le := h
  ringEntries_eq := hentries
  ringMask_eq := by
    have hpos := Nat.two_pow_pos log2
    have hone : (1 : UInt32).toNat = 1 := rfl
    rw [UInt32.toNat_sub_of_le _ _ (by rw [UInt32.le_iff_toNat_le]; omega), hone]
    omega

/-- The word one below a size is its predecessor. -/
theorem mask_eq_sub_one {mask entries : UInt32} (h : mask.toNat + 1 = entries.toNat) :
    mask = entries - 1 := by
  have hone : (1 : UInt32).toNat = 1 := rfl
  apply UInt32.toNat_inj.mp
  rw [UInt32.toNat_sub_of_le _ _ (by rw [UInt32.le_iff_toNat_le]; omega), hone]
  omega

namespace Squeue

/-- A loop that stayed inside has stored every index at its place. -/
theorem initArray_identity {m m' : Mmap} {array n : Nat} (h : initArray m array n = some m') :
    ∀ i < n, m'.loadWord (array + 4 * i) = some (.ofNat i) := by
  cases n with
  | zero => nofun
  | succ n =>
      obtain ⟨m₁, hinit, hstore⟩ := Option.bind_eq_some_iff.mp h
      have hinside := Mmap.of_storeWord hstore
      rw [initArray_len hinit] at hinside
      obtain ⟨m₂, hinit', -, hidentity⟩ :=
        initArray_spec (show array + 4 * (n + 1) ≤ m.len by omega)
      obtain rfl : m₂ = m' := Option.some.inj (hinit'.symm.trans h)
      exact hidentity

/-- The pointers `Inner::new` derives, and the array it leaves. -/
theorem RawInner.of_new {m m' : Mmap} {p : Parameters} {q : RawInner}
    (hsize : m.HoldsSize p.sqOff.ringMask p.sqOff.ringEntries p.sqEntries)
    (h : RawInner.new m p = some (q, m')) :
    q = ⟨p.sqOff.head.toNat, p.sqOff.tail.toNat, p.sqEntries - 1, p.sqEntries,
        p.sqOff.flags.toNat, p.sqOff.dropped.toNat, 0⟩ ∧
      (p.flags &&& Sys.ioringSetupNoSqarray = 0 → ∀ i < p.sqEntries.toNat,
        m'.loadWord (p.sqOff.array.toNat + 4 * i) = some (.ofNat i)) := by
  obtain ⟨mask, hmask, h⟩ := Option.bind_eq_some_iff.mp h
  obtain ⟨entries, hentries, h⟩ := Option.bind_eq_some_iff.mp h
  obtain rfl := hsize.ringEntries_eq entries hentries
  obtain rfl := mask_eq_sub_one (hsize.ringMask_eq mask hmask)
  split at h
  · obtain ⟨m₁, hinit, h⟩ := Option.bind_eq_some_iff.mp h
    obtain ⟨rfl, rfl⟩ := Prod.mk.inj (Option.some.inj h)
    exact ⟨rfl, fun _ => initArray_identity hinit⟩
  · rename_i hflag
    obtain ⟨rfl, rfl⟩ := Prod.mk.inj (Option.some.inj h)
    exact ⟨rfl, fun hzero => absurd (beq_iff_eq.mpr hzero) hflag⟩

end Squeue

theorem Cqueue.RawInner.of_new {m : Mmap} {p : Parameters} {q : RawInner}
    (hsize : m.HoldsSize p.cqOff.ringMask p.cqOff.ringEntries p.cqEntries)
    (h : RawInner.new m p = some q) :
    q = ⟨p.cqOff.head.toNat, p.cqOff.tail.toNat, p.cqEntries - 1, p.cqEntries,
      p.cqOff.overflow.toNat, p.cqOff.cqes.toNat, p.cqOff.flags.toNat⟩ := by
  obtain ⟨mask, hmask, h⟩ := Option.bind_eq_some_iff.mp h
  obtain ⟨entries, hentries, h⟩ := Option.bind_eq_some_iff.mp h
  obtain rfl := hsize.ringEntries_eq entries hentries
  obtain rfl := mask_eq_sub_one (hsize.ringMask_eq mask hmask)
  exact (Option.some.inj h).symm

/-- The numbers of entries are powers of two. -/
structure Parameters.PowersOfTwo (p : Parameters) : Prop where
  sq : ∃ k ≤ 31, p.sqEntries.toNat = 2 ^ k
  cq : ∃ k ≤ 31, p.cqEntries.toNat = 2 ^ k

/-- The pointers into the mappings that the offsets of the parameters give. -/
def Parameters.pointers (p : Parameters) : Ring.Pointers where
  sq := ⟨p.sqOff.head.toNat, p.sqOff.tail.toNat, p.sqEntries - 1, p.sqEntries,
    p.sqOff.flags.toNat, p.sqOff.dropped.toNat, 0⟩
  cq := ⟨p.cqOff.head.toNat, p.cqOff.tail.toNat, p.cqEntries - 1, p.cqEntries,
    p.cqOff.overflow.toNat, p.cqOff.cqes.toNat, p.cqOff.flags.toNat⟩
  cqMapping := if p.isFeatureSingleMmap then .sq else .cq
  array := if p.flags &&& Sys.ioringSetupNoSqarray == 0 then some p.sqOff.array.toNat else none

namespace Ring

open Submit

/-- The bytes of the mappings. -/
def MemoryMap.regions (memory : MemoryMap) : Regions Mapping
  | .sq => memory.sqMmap.bytes
  | .sqe => memory.sqeMmap.bytes
  | .cq => memory.cq.bytes

variable {S : Squeue.EntryType} {C : Cqueue.EntryType} {kernel : Kernel} {fd : Int32}
  {p : Parameters}

/-- The pointers of a ring, and the array the kernel reads. -/
def Instance.pointers (ring : Instance S C) : Pointers where
  sq := ring.sq
  cq := ring.cq
  cqMapping := if ring.memory.cqMmap.isNone then .sq else .cq
  array :=
    if ring.params.flags &&& Sys.ioringSetupNoSqarray == 0 then
      some ring.params.sqOff.array.toNat
    else none

/-- `IoUring::submitter`. -/
def Instance.submitter (ring : Instance S C) : Submitter where
  fd := ring.fd
  params := ring.params

/-- What a set-up leaves behind. -/
structure SetUp (p : Parameters) (ring : Instance S C) : Prop where
  pointers_eq : ring.pointers = p.pointers
  bounds : InBounds S C ring.memory ring.sq ring.cq
  identity : p.flags &&& Sys.ioringSetupNoSqarray = 0 → ∀ i < p.sqEntries.toNat,
    ring.memory.sqMmap.loadWord (p.sqOff.array.toNat + 4 * i) = some (.ofNat i)

theorem SetUp.of_withFdAndParams (layout : p.Layout) (stores : kernel.StoresSizes fd p)
    {ring : Instance S C} (h : withFdAndParams S C kernel fd p = some (.ok ring)) :
    SetUp p ring := by
  unfold withFdAndParams setupQueue at h
  split at h
  · cases h
  · rename_i sqeMmap hsqeLen hsqe
    split at h
    · rename_i hsingle
      split at h
      · cases h
      · rename_i scqMmap hlen hscq
        obtain ⟨sq, m, cq, hnew, hnew', hbounds⟩ := setupQueue_single layout hsingle
          (stores.sq _ _ hscq)
          (fun sq m hnew => (stores.cq_single hsingle _ _ sq m hscq hnew).ringMask_eq) hlen hsqeLen
        simp only [hnew, hnew', Option.bind_eq_bind, Option.bind_some, Option.some.injEq,
          Except.ok.injEq] at h
        subst h
        obtain ⟨rfl, hidentity⟩ := Squeue.RawInner.of_new (stores.sq _ _ hscq) hnew
        obtain rfl := Cqueue.RawInner.of_new (stores.cq_single hsingle _ _ _ _ hscq hnew) hnew'
        refine ⟨?_, hbounds, hidentity⟩
        simp [Instance.pointers, Parameters.pointers, hsingle]
    · rename_i hsplit
      have hsplit : p.isFeatureSingleMmap = false := Bool.not_eq_true _ ▸ hsplit
      split at h
      · cases h
      · rename_i sqMmap hsqLen hsq
        split at h
        · cases h
        · rename_i cqMmap hcqLen hcq
          have hsize := stores.cq hsplit _ _ hcq
          obtain ⟨sq, m, cq, hnew, hnew', hbounds⟩ := setupQueue_split layout hsplit
            (stores.sq _ _ hsq) hsize.ringMask_eq hsqLen hcqLen hsqeLen
          simp only [hnew, hnew', Option.bind_eq_bind, Option.bind_some, Option.some.injEq,
            Except.ok.injEq] at h
          subst h
          obtain ⟨rfl, hidentity⟩ := Squeue.RawInner.of_new (stores.sq _ _ hsq) hnew
          obtain rfl := Cqueue.RawInner.of_new hsize hnew'
          refine ⟨?_, hbounds, hidentity⟩
          simp [Instance.pointers, Parameters.pointers, hsplit]

namespace SetUp

variable {ring : Instance S C}

/-- The mapping of the completion ring, which may be that of the submission ring. -/
theorem regions_cqMapping (ring : Instance S C) :
    ring.memory.regions ring.pointers.cqMapping = ring.memory.cq.bytes := by
  cases hcq : ring.memory.cqMmap with
  | none => simp [Instance.pointers, MemoryMap.regions, MemoryMap.cq, hcq]
  | some m => simp [Instance.pointers, MemoryMap.regions, MemoryMap.cq, hcq]

/-- A counter below the size is its own slot. -/
theorem and_mask_of_lt {entries : UInt32} (h : ∃ k ≤ 31, entries.toNat = 2 ^ k) {i : Nat}
    (hi : i < entries.toNat) : (UInt32.ofNat i &&& (entries - 1)).toNat = i := by
  obtain ⟨log2, hlog2, hentries⟩ := h
  have hslot := (RingSize.ofLog2 entries log2 hlog2 hentries).slotOf_ofNat i
  exact hslot.trans (Nat.mod_eq_of_lt hi)

/-- The array, where there is one, holds every index below the size at its place. -/
theorem index (setUp : SetUp p ring) {k : Nat} (hk : k < ring.pointers.indices) :
    ring.memory.regions.fetch UInt32 .sq (ring.pointers.array.getD 0 + k * 4) =
      some (.ofNat k) := by
  rw [setUp.pointers_eq] at hk ⊢
  by_cases hflag : p.flags &&& Sys.ioringSetupNoSqarray = 0
  · have hsome : p.pointers.array = some p.sqOff.array.toNat := if_pos (beq_iff_eq.mpr hflag)
    rw [Pointers.indices, hsome] at hk
    have hword := setUp.identity hflag k hk
    rw [Nat.mul_comm] at hword
    rw [hsome]
    exact hword
  · have hnone : p.pointers.array = none := if_neg (by rwa [beq_iff_eq])
    rw [Pointers.indices, hnone] at hk
    exact absurd hk (Nat.not_lt_zero k)

/-- Every cell's place is inside its mapping. -/
theorem inside (setUp : SetUp p ring) (sizes : p.PowersOfTwo) (cell : ring.pointers.Cell) :
    (ring.pointers.place S.Carrier C.Carrier cell).offset +
        (ring.pointers.place S.Carrier C.Carrier cell).size ≤
      (ring.memory.regions
        (ring.pointers.place S.Carrier C.Carrier cell).region).length := by
  have hsq : ring.sq = p.pointers.sq := congrArg Pointers.sq setUp.pointers_eq
  have hcq : ring.cq = p.pointers.cq := congrArg Pointers.cq setUp.pointers_eq
  have hsqWords := setUp.bounds.sq_words
  have hcqWords := setUp.bounds.cq_words
  simp only [List.forall_mem_cons, List.not_mem_nil, false_implies, implies_true, and_true]
    at hsqWords hcqWords
  obtain ⟨hsqHead, hsqTail, hsqFlags, hsqDropped⟩ := hsqWords
  obtain ⟨hcqHead, hcqTail, hcqOverflow, hcqFlags⟩ := hcqWords
  have hregion := congrArg List.length (regions_cqMapping ring)
  cases cell with
  | sqHead => exact hsqHead
  | sqTail => exact hsqTail
  | sqFlags => exact hsqFlags
  | sqDropped => exact hsqDropped
  | index k =>
      have hload := Regions.fetch_eq_some_iff.mp (setUp.index k.isLt)
      exact (Regions.of_load hload).1
  | sqe k =>
      obtain ⟨k, hk⟩ := k
      change k < ring.sq.ringEntries.toNat at hk
      change ring.sq.sqes + k * Packed.size S.Carrier + Packed.size S.Carrier ≤
        ring.memory.sqeMmap.len
      have hpush := setUp.bounds.push (.ofNat k)
      rw [hsq] at hk hpush ⊢
      have hslot : (UInt32.ofNat k &&& p.pointers.sq.ringMask).toNat = k :=
        and_mask_of_lt sizes.sq hk
      rwa [Squeue.RawInner.entryOffset, hslot, ← S.size_carrier] at hpush
  | cqHead => exact hcqHead.trans_eq hregion.symm
  | cqTail => exact hcqTail.trans_eq hregion.symm
  | cqOverflow => exact hcqOverflow.trans_eq hregion.symm
  | cqFlags => exact hcqFlags.trans_eq hregion.symm
  | cqe k =>
      obtain ⟨k, hk⟩ := k
      change k < ring.cq.ringEntries.toNat at hk
      have hend : ring.cq.cqes + k * Packed.size C.Carrier + Packed.size C.Carrier ≤
          ring.memory.cq.len := by
        have hpop := setUp.bounds.pop (.ofNat k)
        rw [hcq] at hk hpop ⊢
        have hslot : (UInt32.ofNat k &&& p.pointers.cq.ringMask).toNat = k :=
          and_mask_of_lt sizes.cq hk
        rwa [Cqueue.RawInner.entryOffset, hslot, ← C.size_carrier] at hpop
      exact hend.trans_eq hregion.symm

/-- The mappings a set-up leaves are the image of two rings. -/
theorem image (setUp : SetUp p ring) (sizes : p.PowersOfTwo) :
    ∃ (sq : Squeue.Inner S.Carrier) (cq : Cqueue.Inner C.Carrier),
      Mapped.Image ring.pointers ring.memory.regions sq cq := by
  obtain ⟨contents, hcells⟩ := Regions.Image.of_inside (setUp.inside sizes)
  obtain ⟨sqLog2, hsqLog2, hsqEntries⟩ := sizes.sq
  obtain ⟨cqLog2, hcqLog2, hcqEntries⟩ := sizes.cq
  let word (cell : ring.pointers.Cell) : UInt32 := Packed.ofBytes (contents cell)
  let sq : Squeue.Inner S.Carrier :=
    { RingSize.ofLog2 p.sqEntries sqLog2 hsqLog2 hsqEntries with
      head := word .sqHead
      tail := word .sqTail
      flags := word .sqFlags
      dropped := word .sqDropped
      sqes := fun k => if hk : k < ring.pointers.sq.ringEntries.toNat then
        Packed.ofBytes (contents (.sqe ⟨k, hk⟩)) else Packed.ofBytes [] }
  let cq : Cqueue.Inner C.Carrier :=
    { RingSize.ofLog2 p.cqEntries cqLog2 hcqLog2 hcqEntries with
      head := word .cqHead
      tail := word .cqTail
      overflow := word .cqOverflow
      flags := word .cqFlags
      cqes := fun k => if hk : k < ring.pointers.cq.ringEntries.toNat then
        Packed.ofBytes (contents (.cqe ⟨k, hk⟩)) else Packed.ofBytes [] }
  have hptr := setUp.pointers_eq
  refine ⟨sq, cq, ?_, ?_, ?_, ?_, ?_⟩
  · rw [hptr]
    rfl
  · rw [hptr]
    rfl
  · rw [hptr]
    rfl
  · rw [hptr]
    rfl
  · have hlen (cell : ring.pointers.Cell) := (Regions.of_load (hcells cell)).2
    have hcontents : ring.pointers.contents sq cq = contents := by
      funext cell
      cases cell with
      | index k =>
          have hload := Regions.fetch_eq_some_iff.mp (setUp.index k.isLt)
          exact Option.some.inj (hload.symm.trans (hcells (.index k)))
      | sqe k =>
          simp only [Pointers.contents, sq, k.isLt, dif_pos]
          exact Packed.bytes_ofBytes (hlen (.sqe k))
      | cqe k =>
          simp only [Pointers.contents, cq, k.isLt, dif_pos]
          exact Packed.bytes_ofBytes (hlen (.cqe k))
      | sqHead => exact Packed.bytes_ofBytes (hlen .sqHead)
      | sqTail => exact Packed.bytes_ofBytes (hlen .sqTail)
      | sqFlags => exact Packed.bytes_ofBytes (hlen .sqFlags)
      | sqDropped => exact Packed.bytes_ofBytes (hlen .sqDropped)
      | cqHead => exact Packed.bytes_ofBytes (hlen .cqHead)
      | cqTail => exact Packed.bytes_ofBytes (hlen .cqTail)
      | cqOverflow => exact Packed.bytes_ofBytes (hlen .cqOverflow)
      | cqFlags => exact Packed.bytes_ofBytes (hlen .cqFlags)
    rw [hcontents]
    exact hcells

end SetUp

/-- The whole ring on its bytes, before anything is done with it. -/
def Mapped.State.start {C : Type} (mem : Regions Mapping) : Mapped.State C where
  mem := mem
  sqApp := .none
  cqApp := .none
  inFlight := []
  overflow := []
  pc := .idle

/-- What a set-up leaves in the mappings is the image of two rings. In every run on the bytes
from there on, whatever the order of the steps, the entry types and the mapping modes are, no
access leaves its mapping and the kernel drops no index; and the run is one of the two rings,
of which the bytes stay the image. -/
theorem mapped_ring_refines (layout : p.Layout) (sizes : p.PowersOfTwo)
    (apart : p.pointers.Apart S.Carrier C.Carrier) (stores : kernel.StoresSizes fd p)
    {ring : Instance S C} (hring : withFdAndParams S C kernel fd p = some (.ok ring)) :
    ∃ (sq : Squeue.Inner S.Carrier) (cq : Cqueue.Inner C.Carrier),
      Mapped.Image ring.pointers ring.memory.regions sq cq ∧
        ∀ events σ, Run (Mapped.Step ring.pointers ring.submitter)
            (.start ring.memory.regions) events σ →
          (∀ action : Mapped.Action S.Carrier C.Carrier,
            Mapped.perform ring.pointers ring.submitter σ action ≠ none ∧
              Mapped.perform ring.pointers ring.submitter σ action ≠ some .dropped) ∧
          ∃ sq' cq', Run (Step ring.submitter) ⟨sq, .none, cq, .none, [], [], .idle⟩ events
              ⟨sq', σ.sqApp, cq', σ.cqApp, σ.inFlight, σ.overflow, σ.pc⟩ ∧
            Mapped.Image ring.pointers σ.mem sq' cq' := by
  have setUp := SetUp.of_withFdAndParams layout stores hring
  rw [← setUp.pointers_eq] at apart
  obtain ⟨sq, cq, himage⟩ := setUp.image sizes
  refine ⟨sq, cq, himage, ?_⟩
  intro events σ run
  obtain ⟨τ, run', h⟩ := (Mapped.Refines.intro himage).run apart run
  constructor
  · intro action
    have hmatched := h.perform (s := ring.submitter) apart action
    constructor
    · intro hfault
      rw [hfault] at hmatched
      cases hmatched
    · intro hdropped
      rw [hdropped] at hmatched
      cases hmatched
  · obtain ⟨himage'⟩ := h
    exact ⟨_, _, run', himage'⟩

/-! ## What the bytes hold -/

section Bytes

variable {E D : Type} [Packed E] [Packed D] {ptr : Pointers} {mem : Regions Mapping}

/-- The entries between the published head and tail. -/
def Pointers.unconsumed (ptr : Pointers) (E : Type) [Packed E] (mem : Regions Mapping) :
    Option (List E) := do
  let head ← mem.fetch UInt32 .sq ptr.sq.head
  let tail ← mem.fetch UInt32 .sq ptr.sq.tail
  (List.range (tail - head).toNat).mapM fun i =>
    mem.fetch E .sqe (ptr.sq.entryAt E (head + .ofNat i))

/-- The completions between the head the application is at and the kernel's tail. -/
def Pointers.unread (ptr : Pointers) (D : Type) [Packed D] (mem : Regions Mapping)
    (app : Cqueue.App) : Option (List D) := do
  let head ← match app.handle with
    | some cq => some cq.head
    | none => mem.fetch UInt32 ptr.cqMapping ptr.cq.head
  let tail ← mem.fetch UInt32 ptr.cqMapping ptr.cq.tail
  (List.range (tail - head).toNat).mapM fun i =>
    mem.fetch D ptr.cqMapping (ptr.cq.entryAt D (head + .ofNat i))

/-- The kernel hands out empty rings, with the overflow bit down. -/
structure Pointers.Fresh (ptr : Pointers) (mem : Regions Mapping) : Prop where
  sq : mem.fetch UInt32 .sq ptr.sq.head = mem.fetch UInt32 .sq ptr.sq.tail
  cq : mem.fetch UInt32 ptr.cqMapping ptr.cq.head = mem.fetch UInt32 ptr.cqMapping ptr.cq.tail
  bit : ∀ flags, mem.fetch UInt32 .sq ptr.sq.flags = some flags → sqCqOverflow flags = false

namespace Mapped.Image

variable {sq : Squeue.Inner E} {cq : Cqueue.Inner D}

theorem unconsumed (h : Image ptr mem sq cq) :
    ptr.unconsumed E mem = some (Squeue.unconsumed sq) := by
  simp only [Pointers.unconsumed, h.sqHead, h.sqTail, h.sqe, Option.bind_eq_bind, Option.bind_some]
  rw [Squeue.unconsumed, RingSize.slotsFrom, List.map_map]
  exact List.mapM_pure

theorem unread (h : Image ptr mem sq cq) (app : Cqueue.App) :
    ptr.unread D mem app = some (Cqueue.unread cq app) := by
  rw [Cqueue.unread, RingSize.slotsFrom, List.map_map, Cqueue.readHead]
  cases hhandle : app.handle with
  | none =>
      simp only [Pointers.unread, hhandle, h.cqHead, h.cqTail, h.cqe, Option.bind_eq_bind,
        Option.bind_some]
      exact List.mapM_pure
  | some handle =>
      simp only [Pointers.unread, hhandle, h.cqTail, h.cqe, Option.bind_eq_bind, Option.bind_some]
      exact List.mapM_pure

end Mapped.Image

end Bytes

end Ring

/-- What is behind the consumed entries is in the ring. -/
theorem Squeue.Inv.consumed_append {E : Type*} {base c : Nat} {l : Ledger E} {q : Inner E}
    {app : App} (h : Inv base l c q app) : l.consumed ++ unconsumed q = l.published := by
  obtain ⟨rest, hrest⟩ := h.consumed_prefix
  rw [h.unconsumed_eq, ← hrest, List.drop_left]

/-- What is behind the returned completions is in the ring. -/
theorem Cqueue.Inv.returned_append {E : Type*} {base f t : Nat} {l : Ledger E} {q : Inner E}
    {app : App} (h : Inv base l f t q app) : l.returned ++ unread q app = l.posted := by
  obtain ⟨rest, hrest⟩ := h.returned_prefix
  rw [h.unread_eq, ← hrest, List.drop_left]

namespace Ring

open Submit

variable {S : Squeue.EntryType} {C : Cqueue.EntryType} {kernel : Kernel} {fd : Int32}
  {p : Parameters}

/-- The ledger of rings that are empty when the run starts. -/
def Ledger.empty {E D : Type} : Ledger E D where
  sq := ⟨[], [], []⟩
  cq := ⟨[], []⟩

theorem Ledger.start_eq_empty {E D : Type} {sq : Squeue.Inner E} {cq : Cqueue.Inner D}
    (hsq : sq.head = sq.tail) (hcq : cq.head = cq.tail) : Ledger.start sq cq = .empty := by
  simp [Ledger.start, Ledger.empty, Squeue.Ledger.start, Squeue.unconsumed, Cqueue.Ledger.start,
    Cqueue.unread, Cqueue.readHead, Cqueue.App.handle, RingSize.slotsFrom, hsq, hcq]

/-- From empty rings on, over every run on the bytes: the entries that the kernel has read
and those still in the mapping are the published ones, in their order; the completions that
the application was returned and those still in the mapping are the posted ones; and every
published request is one of the entries in the mapping, in flight, overflowed, or completed
by a completion in the mapping or returned. -/
theorem mapped_requests_conserved (layout : p.Layout) (sizes : p.PowersOfTwo)
    (apart : p.pointers.Apart S.Carrier C.Carrier) (stores : kernel.StoresSizes fd p)
    {ring : Instance S C} (hring : withFdAndParams S C kernel fd p = some (.ok ring))
    (fresh : ring.pointers.Fresh ring.memory.regions) {events : List (Event S.Carrier C.Carrier)}
    {σ : Mapped.State C.Carrier}
    (run : Run (Mapped.Step ring.pointers ring.submitter) (.start ring.memory.regions) events σ) :
    ∃ entries cqes, ring.pointers.unconsumed S.Carrier σ.mem = some entries ∧
      ring.pointers.unread C.Carrier σ.mem σ.cqApp = some cqes ∧
      let l := Foundation.ledgerAfter Ledger.record Ledger.empty events
      l.sq.consumed ++ entries = l.sq.published ∧ l.cq.returned ++ cqes = l.cq.posted ∧
        requests l.sq.published = requests entries + σ.inFlight + completions σ.overflow +
          completions cqes + completions l.cq.returned := by
  have setUp := SetUp.of_withFdAndParams layout stores hring
  rw [← setUp.pointers_eq] at apart
  obtain ⟨sq, cq, himage⟩ := setUp.image sizes
  obtain ⟨τ, run', h⟩ := (Mapped.Refines.intro himage).run apart run
  obtain ⟨himage'⟩ := h
  have hsq : sq.head = sq.tail := by
    have heq := fresh.sq
    rw [himage.sqHead, himage.sqTail] at heq
    exact Option.some.inj heq
  have hcq : cq.head = cq.tail := by
    have heq := fresh.cq
    rw [himage.cqHead, himage.cqTail] at heq
    exact Option.some.inj heq
  have hinv := Inv.run (by simp [hsq]) hcq.symm (fresh.bit _ himage.sqFlags) run'
  rw [Ledger.of, Ledger.start_eq_empty hsq hcq] at hinv
  obtain ⟨c, hsqInv⟩ := hinv.sq
  obtain ⟨f, t, hcqInv⟩ := hinv.cq
  exact ⟨_, _, himage'.unconsumed, himage'.unread _, hsqInv.consumed_append,
    hcqInv.returned_append, hinv.conserved⟩

/-! ## The small ring -/

/-- Where the cells of the small ring are, each in its mapping. -/
def smallPlace : smallParams.pointers.Cell → Place Mapping
  | .sqHead => ⟨.sq, 0, 4⟩
  | .sqTail => ⟨.sq, 4, 4⟩
  | .sqFlags => ⟨.sq, 16, 4⟩
  | .sqDropped => ⟨.sq, 20, 4⟩
  | .index k => ⟨.sq, 112 + k * 4, 4⟩
  | .sqe k => ⟨.sqe, 0 + k * 64, 64⟩
  | .cqHead => ⟨.sq, 24, 4⟩
  | .cqTail => ⟨.sq, 28, 4⟩
  | .cqOverflow => ⟨.sq, 40, 4⟩
  | .cqFlags => ⟨.sq, 44, 4⟩
  | .cqe k => ⟨.sq, 48 + k * 16, 16⟩

theorem smallPlace_eq (cell : smallParams.pointers.Cell) :
    smallParams.pointers.place Squeue.Entry Cqueue.Entry cell = smallPlace cell := by
  cases cell <;> rfl

theorem smallParams_apart_cells : smallParams.pointers.Apart Squeue.Entry Cqueue.Entry := by
  have hcqe (k : Fin smallParams.pointers.cq.ringEntries.toNat) : k.val < 4 := k.isLt
  intro a b hne hregion
  rw [smallPlace_eq, smallPlace_eq] at hregion ⊢
  cases a <;> cases b <;> simp only [smallPlace, reduceCtorEq] at hregion ⊢ <;> grind

theorem smallParams_powersOfTwo : smallParams.PowersOfTwo where
  sq := ⟨1, by decide, by decide⟩
  cq := ⟨2, by decide, by decide⟩

theorem smallKernel_storesSizes : smallKernel.StoresSizes 3 smallParams :=
  smallKernel_fillsSizes.stores fun offset hmem => .inl (smallParams_apart offset hmem)

/-- One request on its way from a push to the completion that is returned. -/
def smallActions : List (Mapped.Action Squeue.Entry Cqueue.Entry) :=
  [.sq .borrow, .sq (.push ⟨{ Squeue.sqeZeroed with userData := 7 }⟩), .sq .drop,
    .call (.submitAndWait 0), .loadHead, .loadTail, .loadOverflow, .decide, .consume, .submitted,
    .leave, .complete [] 7 [] ⟨7, 42, 0⟩, .cq .borrow, .cq .next]

/-- The results returned in a run of these actions on a ring. -/
def results (ring : Instance .entry .entry) : Option (List Int32) :=
  (Mapped.performs (C := Cqueue.Entry) ring.pointers ring.submitter (.start ring.memory.regions)
    smallActions).map fun done =>
      (Foundation.ledgerAfter Ledger.record .empty done.1).cq.returned.map Cqueue.Entry.res

/-- Both heads, both tails and the flags. -/
def counters (ring : Instance .entry .entry) : List (Option UInt32) :=
  let mem := ring.memory.regions
  let ptr := ring.pointers
  [mem.fetch UInt32 .sq ptr.sq.head, mem.fetch UInt32 .sq ptr.sq.tail,
    mem.fetch UInt32 .sq ptr.sq.flags, mem.fetch UInt32 ptr.cqMapping ptr.cq.head,
    mem.fetch UInt32 ptr.cqMapping ptr.cq.tail]

theorem small_setUp : ∃ ring : Instance .entry .entry,
    withFdAndParams .entry .entry smallKernel 3 smallParams = some (.ok ring) ∧
      (results ring, counters ring) =
        (some [42], [some 0, some 0, some 0, some 0, some 0]) := by
  have computed : (withFdAndParams .entry .entry smallKernel 3 smallParams).map
      (Except.map fun ring => (results ring, counters ring)) =
        some (.ok (some [42], [some 0, some 0, some 0, some 0, some 0])) := by
    decide +kernel
  exact of_map_ok computed

/-- The run that takes one request there and back on the bytes is a run of the two rings, and
nothing that could be done after it faults. -/
theorem mapped_ring_refines_small :
    ∃ (ring : Instance .entry .entry) (sq sq' : Squeue.Inner Squeue.Entry)
      (cq cq' : Cqueue.Inner Cqueue.Entry) (events : List (Event Squeue.Entry Cqueue.Entry))
      (σ : Mapped.State Cqueue.Entry),
      withFdAndParams .entry .entry smallKernel 3 smallParams = some (.ok ring) ∧
        Run (Mapped.Step ring.pointers ring.submitter) (.start ring.memory.regions) events σ ∧
        (Foundation.ledgerAfter Ledger.record Ledger.empty events).cq.returned.map
          Cqueue.Entry.res = [42] ∧
        Run (Step ring.submitter) ⟨sq, .none, cq, .none, [], [], .idle⟩ events
          ⟨sq', σ.sqApp, cq', σ.cqApp, σ.inFlight, σ.overflow, σ.pc⟩ ∧
        Mapped.Image ring.pointers σ.mem sq' cq' ∧
        ∀ action : Mapped.Action Squeue.Entry Cqueue.Entry,
          Mapped.perform ring.pointers ring.submitter σ action ≠ none := by
  obtain ⟨ring, hring, hcomputed⟩ := small_setUp
  obtain ⟨⟨events, σ⟩, hperforms, hreturned⟩ :=
    Option.map_eq_some_iff.mp (Prod.mk.inj hcomputed).1
  have run := Mapped.run_of_performs hperforms
  obtain ⟨sq, cq, -, hruns⟩ := @mapped_ring_refines .entry .entry smallKernel 3 smallParams
    smallParams_layout smallParams_powersOfTwo smallParams_apart_cells smallKernel_storesSizes
    ring hring
  obtain ⟨inside, sq', cq', run', himage⟩ := hruns events σ run
  exact ⟨ring, sq, sq', cq, cq', events, σ, hring, run, hreturned, run', himage,
    fun action => (inside action).1⟩

/-- The request is consumed, completed and returned; nothing of it is left in the mappings. -/
theorem mapped_requests_conserved_small :
    ∃ (ring : Instance .entry .entry) (events : List (Event Squeue.Entry Cqueue.Entry))
      (σ : Mapped.State Cqueue.Entry),
      withFdAndParams .entry .entry smallKernel 3 smallParams = some (.ok ring) ∧
        Run (Mapped.Step ring.pointers ring.submitter) (.start ring.memory.regions) events σ ∧
        (Foundation.ledgerAfter Ledger.record Ledger.empty events).cq.returned.map
          Cqueue.Entry.res = [42] ∧
        ∃ entries cqes, ring.pointers.unconsumed Squeue.Entry σ.mem = some entries ∧
          ring.pointers.unread Cqueue.Entry σ.mem σ.cqApp = some cqes := by
  obtain ⟨ring, hring, hcomputed⟩ := small_setUp
  obtain ⟨hresults, hcounters⟩ := Prod.mk.inj hcomputed
  obtain ⟨⟨events, σ⟩, hperforms, hreturned⟩ := Option.map_eq_some_iff.mp hresults
  have run := Mapped.run_of_performs hperforms
  simp only [counters, List.cons.injEq] at hcounters
  obtain ⟨hsqHead, hsqTail, hflags, hcqHead, hcqTail, -⟩ := hcounters
  have fresh : ring.pointers.Fresh ring.memory.regions := by
    refine ⟨hsqHead.trans hsqTail.symm, hcqHead.trans hcqTail.symm, ?_⟩
    intro flags hword
    obtain rfl := Option.some.inj (hflags.symm.trans hword)
    decide
  obtain ⟨entries, cqes, hentries, hcqes, -⟩ := @mapped_requests_conserved .entry .entry
    smallKernel 3 smallParams smallParams_layout smallParams_powersOfTwo smallParams_apart_cells
    smallKernel_storesSizes ring hring fresh events σ run
  exact ⟨ring, events, σ, hring, run, hreturned, entries, cqes, hentries, hcqes⟩

end Ring

end IoUring
