import IoUring.Foundation.Usize
import IoUring.Ring.Setup

/-!
# Every access of the set-up rings is inside its mapping

The lengths of the mappings are computed from offsets that the kernel fills in.
With a single mapping only the longer of two lengths covers both rings; with a
mapping each, that of the submission ring ends with the index array. The
kernel's contract places the words of the headers; the sizes that it stores in
the rings bound the array, and the masks bound every later slot.
-/

namespace IoUring

def SqringOffsets.words (offsets : SqringOffsets) : List UInt32 :=
  [offsets.head, offsets.tail, offsets.ringMask, offsets.ringEntries, offsets.flags,
    offsets.dropped]

def CqringOffsets.words (offsets : CqringOffsets) : List UInt32 :=
  [offsets.head, offsets.tail, offsets.ringMask, offsets.ringEntries, offsets.overflow,
    offsets.flags]

/-- Where the kernel puts the words of the headers: in front of the completion entries if
there is one mapping, and each ring's in front of its array or entries if there are two. -/
structure Parameters.Layout (p : Parameters) : Prop where
  sq_words : ∀ offset ∈ p.sqOff.words, offset.toNat + 4 ≤
    if p.isFeatureSingleMmap then p.cqOff.cqes.toNat else p.sqOff.array.toNat
  cq_words : ∀ offset ∈ p.cqOff.words, offset.toNat + 4 ≤ p.cqOff.cqes.toNat

/-- The words at the two offsets, if they are words of the mapping, are the ring's size and
the mask one below it. -/
structure Mmap.HoldsSize (m : Mmap) (ringMask ringEntries entries : UInt32) : Prop where
  ringEntries_eq : ∀ word, m.loadWord ringEntries.toNat = some word → word = entries
  ringMask_eq : ∀ word, m.loadWord ringMask.toNat = some word →
    word.toNat + 1 = entries.toNat

theorem Mmap.HoldsSize.of_load {m : Mmap} {ringMask ringEntries entries : UInt32} (mask : UInt32)
    (hentries : m.loadWord ringEntries.toNat = some entries)
    (hmask : m.loadWord ringMask.toNat = some mask) (h : mask.toNat + 1 = entries.toNat) :
    m.HoldsSize ringMask ringEntries entries where
  ringEntries_eq word hword := by
    rw [hentries] at hword
    exact (Option.some.inj hword).symm
  ringMask_eq word hword := by
    rw [hmask] at hword
    rwa [← Option.some.inj hword]

/-- Then they are read. -/
theorem Mmap.HoldsSize.load {m : Mmap} {ringMask ringEntries entries : UInt32}
    (h : m.HoldsSize ringMask ringEntries entries) (hmask : ringMask.toNat + 4 ≤ m.len)
    (hentries : ringEntries.toNat + 4 ≤ m.len) :
    m.loadWord ringEntries.toNat = some entries ∧
      ∃ mask, m.loadWord ringMask.toNat = some mask ∧ mask.toNat + 1 = entries.toNat := by
  obtain ⟨word, hword⟩ := Mmap.loadWord_of_le hentries
  obtain ⟨mask, hload⟩ := Mmap.loadWord_of_le hmask
  exact ⟨h.ringEntries_eq word hword ▸ hword, mask, hload, h.ringMask_eq mask hload⟩

theorem Squeue.EntryType.size_le (S : Squeue.EntryType) : S.size ≤ 128 := by
  cases S <;> decide

theorem Cqueue.EntryType.size_le (C : Cqueue.EntryType) : C.size ≤ 32 := by
  cases C <;> decide

namespace Parameters

variable (p : Parameters) (S : Squeue.EntryType) (C : Cqueue.EntryType)

/-! ## The lengths do not overflow -/

/-- A table of small entries is far shorter than the address space. -/
theorem toNat_mul_size (entries : UInt32) {size : Nat} (hsize : size ≤ 128) :
    (entries.toUInt64 * .ofNat size).toNat = entries.toNat * size := by
  have hentries := entries.toNat_lt
  have hmul : entries.toNat * size ≤ entries.toNat * 128 := Nat.mul_le_mul_left _ hsize
  have hlt : size < UInt64.size := Nat.lt_of_le_of_lt hsize (by decide)
  rw [UInt64.toNat_mul, UInt32.toNat_toUInt64, UInt64.toNat_ofNat_of_lt' hlt,
    Nat.mod_eq_of_lt (by omega)]

/-- Neither does it when it starts at a 32-bit offset. -/
theorem toNat_add_mul_size (offset entries : UInt32) {size : Nat} (hsize : size ≤ 128) :
    (offset.toUInt64 + entries.toUInt64 * .ofNat size).toNat =
      offset.toNat + entries.toNat * size := by
  have hoffset := offset.toNat_lt
  have hentries := entries.toNat_lt
  have hmul : entries.toNat * size ≤ entries.toNat * 128 := Nat.mul_le_mul_left _ hsize
  rw [UInt64.toNat_add, UInt32.toNat_toUInt64, toNat_mul_size _ hsize, Nat.mod_eq_of_lt (by omega)]

theorem toNat_sqLen : p.sqLen.toNat = p.sqOff.array.toNat + p.sqEntries.toNat * 4 :=
  @toNat_add_mul_size p.sqOff.array p.sqEntries 4 (by omega)

theorem toNat_cqLen : (p.cqLen C).toNat = p.cqOff.cqes.toNat + p.cqEntries.toNat * C.size :=
  toNat_add_mul_size p.cqOff.cqes p.cqEntries (Nat.le_trans C.size_le (by omega))

theorem toNat_sqeLen : (p.sqeLen S).toNat = p.sqEntries.toNat * S.size :=
  toNat_mul_size p.sqEntries S.size_le

end Parameters

/-! ## The two `Inner`s -/

/-- The loop stays inside a mapping that holds the array and stores every index at its place. -/
theorem Squeue.initArray_spec {m : Mmap} {array n : Nat} (h : array + 4 * n ≤ m.len) :
    ∃ m', initArray m array n = some m' ∧ m'.len = m.len ∧
      ∀ i < n, m'.loadWord (array + 4 * i) = some (.ofNat i) := by
  induction n with
  | zero => exact ⟨m, rfl, rfl, nofun⟩
  | succ n ih =>
      obtain ⟨m₁, hinit, hlen, hidentity⟩ := ih (by omega)
      have hroom : array + 4 * n + 4 ≤ m₁.len := by omega
      obtain ⟨m₂, hstore, hlen', hload, hkeeps⟩ := Mmap.storeWord_of_le hroom (.ofNat n)
      refine ⟨m₂, ?_, hlen'.trans hlen, ?_⟩
      · rw [initArray, hinit]
        exact hstore
      · intro i hi
        by_cases heq : i = n
        · rw [heq]
          exact hload
        · rw [hkeeps _ (.inl (by omega))]
          exact hidentity i (by omega)

/-- A loop that stayed inside left the words apart from the array as they were. -/
theorem Squeue.initArray_keeps {m m' : Mmap} {array n other : Nat}
    (h : initArray m array n = some m') (hapart : other + 4 ≤ array ∨ array + 4 * n ≤ other) :
    m'.loadWord other = m.loadWord other := by
  induction n generalizing m' with
  | zero => rw [← Option.some.inj h]
  | succ n ih =>
      obtain ⟨m₁, hinit, hstore⟩ := Option.bind_eq_some_iff.mp h
      obtain ⟨m₂, hstore', -, -, hkeeps⟩ :=
        Mmap.storeWord_of_le (Mmap.of_storeWord hstore) (.ofNat n)
      obtain rfl : m₂ = m' := Option.some.inj (hstore'.symm.trans hstore)
      rw [hkeeps other (by omega)]
      exact ih hinit (by omega)

theorem Squeue.initArray_len {m m' : Mmap} {array n : Nat} (h : initArray m array n = some m') :
    m'.len = m.len := by
  induction n generalizing m' with
  | zero => rw [← Option.some.inj h]
  | succ n ih =>
      obtain ⟨m₁, hinit, hstore⟩ := Option.bind_eq_some_iff.mp h
      rw [Mmap.len_storeWord hstore, ih hinit]

/-- A mask one below the size keeps every counter below the size. -/
theorem and_mask_lt {mask entries : UInt32} (h : mask.toNat + 1 = entries.toNat)
    (counter : UInt32) : (counter &&& mask).toNat < entries.toNat := by
  rw [UInt32.toNat_and, ← h]
  exact Nat.lt_succ_of_le Nat.and_le_right

/-- The slot of every counter lies in a table of that many entries. -/
theorem slot_end_le {mask entries : UInt32} (h : mask.toNat + 1 = entries.toNat)
    (counter : UInt32) (size : Nat) :
    (counter &&& mask).toNat * size + size ≤ entries.toNat * size := by
  rw [← Nat.succ_mul]
  exact Nat.mul_le_mul_right size (and_mask_lt h counter)

theorem Squeue.RawInner.new_spec {m : Mmap} {p : Parameters}
    (hsize : m.HoldsSize p.sqOff.ringMask p.sqOff.ringEntries p.sqEntries)
    (hwords : ∀ offset ∈ p.sqOff.words, offset.toNat + 4 ≤ m.len)
    (harray : p.flags &&& Sys.ioringSetupNoSqarray = 0 →
      p.sqOff.array.toNat + 4 * p.sqEntries.toNat ≤ m.len) :
    ∃ mask m', mask.toNat + 1 = p.sqEntries.toNat ∧
      RawInner.new m p = some
        (⟨p.sqOff.head.toNat, p.sqOff.tail.toNat, mask, p.sqEntries, p.sqOff.flags.toNat,
          p.sqOff.dropped.toNat, 0⟩, m') ∧ m'.len = m.len := by
  obtain ⟨hentries, mask, hmask, hmask_eq⟩ :=
    hsize.load (hwords _ (by simp [SqringOffsets.words])) (hwords _ (by simp [SqringOffsets.words]))
  by_cases hflag : p.flags &&& Sys.ioringSetupNoSqarray = 0
  · obtain ⟨m', hinit, hlen, -⟩ := Squeue.initArray_spec (harray hflag)
    refine ⟨mask, m', hmask_eq, ?_, hlen⟩
    simp [RawInner.new, hmask, hentries, hflag, hinit]
  · refine ⟨mask, m, hmask_eq, ?_, rfl⟩
    simp [RawInner.new, hmask, hentries, hflag]

/-- `Inner::new` writes the array and nothing else. -/
theorem Squeue.RawInner.new_keeps {m m' : Mmap} {p : Parameters} {q : RawInner} {other : Nat}
    (hsize : m.HoldsSize p.sqOff.ringMask p.sqOff.ringEntries p.sqEntries)
    (hnew : RawInner.new m p = some (q, m'))
    (hapart : p.flags &&& Sys.ioringSetupNoSqarray = 0 → other + 4 ≤ p.sqOff.array.toNat ∨
      p.sqOff.array.toNat + 4 * p.sqEntries.toNat ≤ other) :
    m'.loadWord other = m.loadWord other := by
  obtain ⟨mask, -, hnew⟩ := Option.bind_eq_some_iff.mp hnew
  obtain ⟨entries, hentries, hnew⟩ := Option.bind_eq_some_iff.mp hnew
  obtain rfl := hsize.ringEntries_eq entries hentries
  split at hnew
  · rename_i hflag
    obtain ⟨m₁, hinit, hnew⟩ := Option.bind_eq_some_iff.mp hnew
    obtain ⟨-, rfl⟩ := Prod.mk.inj (Option.some.inj hnew)
    exact initArray_keeps hinit (hapart (beq_iff_eq.mp hflag))
  · obtain ⟨-, rfl⟩ := Prod.mk.inj (Option.some.inj hnew)
    rfl

theorem Squeue.RawInner.new_len {m m' : Mmap} {p : Parameters} {q : RawInner}
    (h : RawInner.new m p = some (q, m')) : m'.len = m.len := by
  obtain ⟨mask, -, h⟩ := Option.bind_eq_some_iff.mp h
  obtain ⟨entries, -, h⟩ := Option.bind_eq_some_iff.mp h
  split at h
  · obtain ⟨m₁, hinit, h⟩ := Option.bind_eq_some_iff.mp h
    obtain ⟨-, rfl⟩ := Prod.mk.inj (Option.some.inj h)
    exact initArray_len hinit
  · obtain ⟨-, rfl⟩ := Prod.mk.inj (Option.some.inj h)
    rfl

/-- The pointers of a completion ring whose header is inside the mapping. -/
theorem Cqueue.RawInner.new_spec {m : Mmap} {p : Parameters}
    (hwords : ∀ offset ∈ p.cqOff.words, offset.toNat + 4 ≤ m.len) :
    ∃ mask entries, m.loadWord p.cqOff.ringMask.toNat = some mask ∧
      RawInner.new m p = some
        ⟨p.cqOff.head.toNat, p.cqOff.tail.toNat, mask, entries, p.cqOff.overflow.toNat,
          p.cqOff.cqes.toNat, p.cqOff.flags.toNat⟩ := by
  obtain ⟨mask, hmask⟩ :=
    Mmap.loadWord_of_le (hwords p.cqOff.ringMask (by simp [CqringOffsets.words]))
  obtain ⟨entries, hentries⟩ :=
    Mmap.loadWord_of_le (hwords p.cqOff.ringEntries (by simp [CqringOffsets.words]))
  refine ⟨mask, entries, hmask, ?_⟩
  simp [RawInner.new, hmask, hentries]

/-- The words of the header and the slots of all counters, of a submission ring whose
header is inside the mapping. -/
theorem Squeue.RawInner.new_in_bounds (S : Squeue.EntryType) {m : Mmap} {p : Parameters}
    (hsize : m.HoldsSize p.sqOff.ringMask p.sqOff.ringEntries p.sqEntries)
    (hwords : ∀ offset ∈ p.sqOff.words, offset.toNat + 4 ≤ m.len)
    (harray : p.flags &&& Sys.ioringSetupNoSqarray = 0 →
      p.sqOff.array.toNat + 4 * p.sqEntries.toNat ≤ m.len) :
    ∃ q m', RawInner.new m p = some (q, m') ∧ m'.len = m.len ∧
      (∀ offset ∈ [q.head, q.tail, q.flags, q.dropped], offset + 4 ≤ m.len) ∧
      ∀ tail, q.entryOffset S tail + S.size ≤ p.sqEntries.toNat * S.size := by
  obtain ⟨mask, m', hmask, hnew, hlen⟩ := new_spec hsize hwords harray
  refine ⟨_, m', hnew, hlen, ?_, ?_⟩
  · simp only [SqringOffsets.words, List.forall_mem_cons] at hwords
    simp [hwords]
  · intro tail
    rw [entryOffset, Nat.zero_add]
    exact slot_end_le hmask tail S.size

/-- The same of a completion ring, whose mask alone bounds the slots. -/
theorem Cqueue.RawInner.new_in_bounds (C : Cqueue.EntryType) {m : Mmap} {p : Parameters}
    (hmask : ∀ word, m.loadWord p.cqOff.ringMask.toNat = some word →
      word.toNat + 1 = p.cqEntries.toNat)
    (hwords : ∀ offset ∈ p.cqOff.words, offset.toNat + 4 ≤ m.len) :
    ∃ q, RawInner.new m p = some q ∧
      (∀ offset ∈ [q.head, q.tail, q.overflow, q.flags], offset + 4 ≤ m.len) ∧
      ∀ head, q.entryOffset C head + C.size ≤
        p.cqOff.cqes.toNat + p.cqEntries.toNat * C.size := by
  obtain ⟨mask, entries, hload, hnew⟩ := new_spec hwords
  refine ⟨_, hnew, ?_, ?_⟩
  · simp only [CqringOffsets.words, List.forall_mem_cons] at hwords
    simp [hwords]
  · intro head
    rw [entryOffset, Nat.add_assoc]
    exact Nat.add_le_add_left (slot_end_le (hmask mask hload) head C.size) _

namespace Ring

variable {S : Squeue.EntryType} {C : Cqueue.EntryType} {kernel : Kernel} {fd : Int32}
  {p : Parameters}

/-- The kernel stores the sizes in the rings: they are what `Inner::new` finds there. With
a single mapping the completion ring is read once the array has been written. -/
structure Kernel.StoresSizes (kernel : Kernel) (fd : Int32) (p : Parameters) : Prop where
  sq : ∀ len m, kernel.mmap fd Sys.ioringOffSqRing len = .ok m →
    m.val.HoldsSize p.sqOff.ringMask p.sqOff.ringEntries p.sqEntries
  cq_single : p.isFeatureSingleMmap = true → ∀ len m sq scqMmap,
    kernel.mmap fd Sys.ioringOffSqRing len = .ok m →
      Squeue.RawInner.new m.val p = some (sq, scqMmap) →
        scqMmap.HoldsSize p.cqOff.ringMask p.cqOff.ringEntries p.cqEntries
  cq : p.isFeatureSingleMmap = false → ∀ len m,
    kernel.mmap fd Sys.ioringOffCqRing len = .ok m →
      m.val.HoldsSize p.cqOff.ringMask p.cqOff.ringEntries p.cqEntries

/-- The kernel has filled the sizes in when it hands the rings out, those of the completion
ring in the mapping that it is in. -/
structure Kernel.FillsSizes (kernel : Kernel) (fd : Int32) (p : Parameters) : Prop where
  sq : ∀ len m, kernel.mmap fd Sys.ioringOffSqRing len = .ok m →
    m.val.HoldsSize p.sqOff.ringMask p.sqOff.ringEntries p.sqEntries
  cq_single : p.isFeatureSingleMmap = true → ∀ len m,
    kernel.mmap fd Sys.ioringOffSqRing len = .ok m →
      m.val.HoldsSize p.cqOff.ringMask p.cqOff.ringEntries p.cqEntries
  cq : p.isFeatureSingleMmap = false → ∀ len m,
    kernel.mmap fd Sys.ioringOffCqRing len = .ok m →
      m.val.HoldsSize p.cqOff.ringMask p.cqOff.ringEntries p.cqEntries

/-- They are what `Inner::new` finds as long as the array does not lie over the header of the
completion ring. -/
theorem Kernel.FillsSizes.stores (h : kernel.FillsSizes fd p)
    (hapart : ∀ offset ∈ p.cqOff.words, offset.toNat + 4 ≤ p.sqOff.array.toNat ∨
      p.sqOff.array.toNat + 4 * p.sqEntries.toNat ≤ offset.toNat) :
    kernel.StoresSizes fd p where
  sq := h.sq
  cq_single hsingle len m sq scqMmap hmmap hnew := by
    have hkeeps (offset : UInt32) (hmem : offset ∈ p.cqOff.words) :
        scqMmap.loadWord offset.toNat = m.val.loadWord offset.toNat :=
      Squeue.RawInner.new_keeps (h.sq len m hmmap) hnew fun _ => hapart offset hmem
    have hsize := h.cq_single hsingle len m hmmap
    constructor
    · intro word hword
      rw [hkeeps _ (by simp [CqringOffsets.words])] at hword
      exact hsize.ringEntries_eq word hword
    · intro word hword
      rw [hkeeps _ (by simp [CqringOffsets.words])] at hword
      exact hsize.ringMask_eq word hword
  cq := h.cq

/-- All that is ever accessed through the two `Inner`s: the words of the headers, and the
slots of all counters. -/
structure InBounds (S : Squeue.EntryType) (C : Cqueue.EntryType) (memory : MemoryMap)
    (sq : Squeue.RawInner) (cq : Cqueue.RawInner) : Prop where
  sq_words : ∀ offset ∈ [sq.head, sq.tail, sq.flags, sq.dropped],
    offset + 4 ≤ memory.sqMmap.len
  cq_words : ∀ offset ∈ [cq.head, cq.tail, cq.overflow, cq.flags], offset + 4 ≤ memory.cq.len
  push : ∀ tail, sq.entryOffset S tail + S.size ≤ memory.sqeMmap.len
  pop : ∀ head, cq.entryOffset C head + C.size ≤ memory.cq.len

/-- With one mapping the longer of the two lengths covers both rings. -/
theorem setupQueue_single {scqMmap sqeMmap : Mmap} (layout : p.Layout)
    (hsingle : p.isFeatureSingleMmap = true)
    (hsq : scqMmap.HoldsSize p.sqOff.ringMask p.sqOff.ringEntries p.sqEntries)
    (hmask : ∀ sq m, Squeue.RawInner.new scqMmap p = some (sq, m) →
      ∀ word, m.loadWord p.cqOff.ringMask.toNat = some word → word.toNat + 1 = p.cqEntries.toNat)
    (hlen : scqMmap.len = (max p.sqLen (p.cqLen C)).toNat)
    (hsqe : sqeMmap.len = (p.sqeLen S).toNat) :
    ∃ sq m cq, Squeue.RawInner.new scqMmap p = some (sq, m) ∧
      Cqueue.RawInner.new m p = some cq ∧
      InBounds S C { sqMmap := m, sqeMmap, cqMmap := none } sq cq := by
  rw [Foundation.toNat_max, p.toNat_sqLen, p.toNat_cqLen] at hlen
  rw [p.toNat_sqeLen] at hsqe
  have hsqLen := Nat.le_max_left (p.sqOff.array.toNat + p.sqEntries.toNat * 4)
    (p.cqOff.cqes.toNat + p.cqEntries.toNat * C.size)
  have hcqLen := Nat.le_max_right (p.sqOff.array.toNat + p.sqEntries.toNat * 4)
    (p.cqOff.cqes.toNat + p.cqEntries.toNat * C.size)
  rw [← hlen] at hsqLen hcqLen
  have hsqWords (offset : UInt32) (hmem : offset ∈ p.sqOff.words) :
      offset.toNat + 4 ≤ scqMmap.len := by
    have hend := layout.sq_words offset hmem
    rw [hsingle, if_pos rfl] at hend
    omega
  obtain ⟨sq, m, hnew, hm, hsq_words, hpush⟩ :=
    Squeue.RawInner.new_in_bounds S hsq hsqWords (fun _ => by omega)
  have hcqWords (offset : UInt32) (hmem : offset ∈ p.cqOff.words) :
      offset.toNat + 4 ≤ m.len := by
    have hend := layout.cq_words offset hmem
    omega
  obtain ⟨cq, hnew', hcq_words, hpop⟩ :=
    Cqueue.RawInner.new_in_bounds C (hmask sq m hnew) hcqWords
  refine ⟨sq, m, cq, hnew, hnew', ?_, hcq_words, ?_, ?_⟩
  · rwa [← hm] at hsq_words
  · intro tail
    rw [hsqe]
    exact hpush tail
  · intro head
    exact (hpop head).trans (hcqLen.trans_eq hm.symm)

/-- With two mappings each ring's length covers it. -/
theorem setupQueue_split {sqMmap cqMmap sqeMmap : Mmap} (layout : p.Layout)
    (hsplit : p.isFeatureSingleMmap = false)
    (hsq : sqMmap.HoldsSize p.sqOff.ringMask p.sqOff.ringEntries p.sqEntries)
    (hmask : ∀ word, cqMmap.loadWord p.cqOff.ringMask.toNat = some word →
      word.toNat + 1 = p.cqEntries.toNat)
    (hsqLen : sqMmap.len = p.sqLen.toNat) (hcqLen : cqMmap.len = (p.cqLen C).toNat)
    (hsqe : sqeMmap.len = (p.sqeLen S).toNat) :
    ∃ sq m cq, Squeue.RawInner.new sqMmap p = some (sq, m) ∧
      Cqueue.RawInner.new cqMmap p = some cq ∧
      InBounds S C { sqMmap := m, sqeMmap, cqMmap := some cqMmap } sq cq := by
  rw [p.toNat_sqLen] at hsqLen
  rw [p.toNat_cqLen] at hcqLen
  rw [p.toNat_sqeLen] at hsqe
  have hsqWords (offset : UInt32) (hmem : offset ∈ p.sqOff.words) :
      offset.toNat + 4 ≤ sqMmap.len := by
    have hend := layout.sq_words offset hmem
    rw [hsplit, if_neg (by decide)] at hend
    omega
  obtain ⟨sq, m, hnew, hm, hsq_words, hpush⟩ :=
    Squeue.RawInner.new_in_bounds S hsq hsqWords (fun _ => by omega)
  have hcqWords (offset : UInt32) (hmem : offset ∈ p.cqOff.words) :
      offset.toNat + 4 ≤ cqMmap.len := by
    have hend := layout.cq_words offset hmem
    omega
  obtain ⟨cq, hnew', hcq_words, hpop⟩ := Cqueue.RawInner.new_in_bounds C hmask hcqWords
  refine ⟨sq, m, cq, hnew, hnew', ?_, hcq_words, ?_, ?_⟩
  · rwa [← hm] at hsq_words
  · intro tail
    rw [hsqe]
    exact hpush tail
  · intro head
    exact (hpop head).trans_eq hcqLen.symm

/-- In one mapping the array, if the ring has one, does not lie over the mask of the completion
ring. -/
def MaskApart (p : Parameters) : Prop :=
  p.isFeatureSingleMmap = true → p.flags &&& Sys.ioringSetupNoSqarray = 0 →
    p.cqOff.ringMask.toNat + 4 ≤ p.sqOff.array.toNat ∨
      p.sqOff.array.toNat + 4 * p.sqEntries.toNat ≤ p.cqOff.ringMask.toNat

/-- Then the mask is still the one that the kernel filled in when the completion ring is read. -/
theorem Kernel.FillsSizes.mask_single (h : kernel.FillsSizes fd p) (hapart : MaskApart p)
    (hsingle : p.isFeatureSingleMmap = true) {len : UInt64}
    {m : { m : Mmap // m.len = len.toNat }}
    (hmmap : kernel.mmap fd Sys.ioringOffSqRing len = .ok m) (sq : Squeue.RawInner)
    (scqMmap : Mmap) (hnew : Squeue.RawInner.new m.val p = some (sq, scqMmap)) (word : UInt32)
    (hword : scqMmap.loadWord p.cqOff.ringMask.toNat = some word) :
    word.toNat + 1 = p.cqEntries.toNat := by
  have hkeeps := Squeue.RawInner.new_keeps (h.sq len m hmmap) hnew (hapart hsingle)
  exact (h.cq_single hsingle len m hmmap).ringMask_eq word (hkeeps.symm.trans hword)

/-- For parameters that keep the kernel's layout no length overflows, and whatever the
mapping modes and the entry types are, setting up the rings and every later access through
them stay inside the mappings, as long as the array does not overwrite the mask of the
completion ring. -/
theorem setup_in_bounds (layout : p.Layout) (fills : kernel.FillsSizes fd p)
    (hapart : MaskApart p) :
    p.sqLen.toNat = p.sqOff.array.toNat + p.sqEntries.toNat * 4 ∧
      (p.cqLen C).toNat = p.cqOff.cqes.toNat + p.cqEntries.toNat * C.size ∧
      (p.sqeLen S).toNat = p.sqEntries.toNat * S.size ∧
      ∃ result, setupQueue S C kernel fd p = some result ∧
        ∀ memory sq cq, result = .ok (memory, sq, cq) → InBounds S C memory sq cq := by
  refine ⟨p.toNat_sqLen, p.toNat_cqLen C, p.toNat_sqeLen S, ?_⟩
  unfold setupQueue
  split
  · exact ⟨_, rfl, nofun⟩
  · rename_i sqeMmap hsqeLen hsqe
    split
    · rename_i hsingle
      split
      · exact ⟨_, rfl, nofun⟩
      · rename_i scqMmap hlen hscq
        obtain ⟨sq, m, cq, hnew, hnew', hbounds⟩ := setupQueue_single layout hsingle
          (fills.sq _ _ hscq) (fills.mask_single hapart hsingle hscq) hlen hsqeLen
        simp only [hnew, hnew', Option.bind_eq_bind, Option.bind_some]
        refine ⟨_, rfl, ?_⟩
        rintro _ _ _ ⟨⟩
        exact hbounds
    · rename_i hsplit
      have hsplit : p.isFeatureSingleMmap = false := Bool.not_eq_true _ ▸ hsplit
      split
      · exact ⟨_, rfl, nofun⟩
      · rename_i sqMmap hsqLen hsq
        split
        · exact ⟨_, rfl, nofun⟩
        · rename_i cqMmap hcqLen hcq
          obtain ⟨sq, m, cq, hnew, hnew', hbounds⟩ := setupQueue_split layout hsplit
            (fills.sq _ _ hsq) (fills.cq hsplit _ _ hcq).ringMask_eq hsqLen hcqLen hsqeLen
          simp only [hnew, hnew', Option.bind_eq_bind, Option.bind_some]
          refine ⟨_, rfl, ?_⟩
          rintro _ _ _ ⟨⟩
          exact hbounds

/-- A kernel with one ring to hand out, which gives the flags back as they were requested. -/
def Kernel.ofRing (p : Parameters) (ring : Mmap) : Kernel where
  setup _ requested := .ok (3, { p with flags := requested.flags })
  mmap _ offset len :=
    if offset = Sys.ioringOffSqes then
      .ok ⟨⟨List.replicate len.toNat 0⟩, by simp [Mmap.len]⟩
    else if h : ring.len = len.toNat then .ok ⟨ring, h⟩
    else .error 22
  madvise _ := .ok ()

theorem Kernel.of_ofRing_mmap {ring : Mmap} {offset len : UInt64}
    {m : { m : Mmap // m.len = len.toNat }}
    (h : (Kernel.ofRing p ring).mmap fd offset len = .ok m) (hoffset : offset ≠ Sys.ioringOffSqes) :
    m.val = ring := by
  unfold ofRing at h
  simp only [if_neg hoffset] at h
  split at h
  · rw [← Except.ok.inj h]
  · cases h

theorem of_map_ok {α β : Type} {x : Option (Except Int32 α)} {f : α → β} {b : β}
    (h : x.map (Except.map f) = some (.ok b)) : ∃ a, x = some (.ok a) ∧ f a = b := by
  match x, h with
  | some (.ok a), h => exact ⟨a, rfl, Except.ok.inj (Option.some.inj h)⟩

/-! ## A small ring -/

/-- Two submission entries and four completion entries in one mapping, with the array at the
end; the two headers are the first twelve words. -/
def smallParams : Parameters :=
  { Parameters.zeroed with
    sqEntries := 2
    cqEntries := 4
    features := Sys.ioringFeatSingleMmap
    sqOff := ⟨0, 4, 8, 12, 16, 20, 112⟩
    cqOff := ⟨24, 28, 32, 36, 40, 48, 44⟩ }

theorem smallParams_layout : smallParams.Layout where
  sq_words offset h := by
    simp only [SqringOffsets.words, List.mem_cons, List.not_mem_nil, or_false] at h
    rcases h with rfl | rfl | rfl | rfl | rfl | rfl <;> decide
  cq_words offset h := by
    simp only [CqringOffsets.words, List.mem_cons, List.not_mem_nil, or_false] at h
    rcases h with rfl | rfl | rfl | rfl | rfl | rfl <;> decide

theorem smallParams_apart (offset : UInt32) (h : offset ∈ smallParams.cqOff.words) :
    offset.toNat + 4 ≤ smallParams.sqOff.array.toNat := by
  simp only [CqringOffsets.words, List.mem_cons, List.not_mem_nil, or_false] at h
  rcases h with rfl | rfl | rfl | rfl | rfl | rfl <;> decide

def smallRing : Mmap :=
  ⟨([0, 0, 1, 2, 0, 0, 0, 0, 3, 4, 0, 0] : List UInt32).flatMap Foundation.leBytes ++
    List.replicate 72 0⟩

def smallKernel : Kernel := .ofRing smallParams smallRing

theorem smallKernel_fillsSizes : smallKernel.FillsSizes fd smallParams where
  sq len m hmmap := by
    rw [Kernel.of_ofRing_mmap hmmap (by decide)]
    exact .of_load 1 (by decide +kernel) (by decide +kernel) (by decide)
  cq_single _ len m hmmap := by
    rw [Kernel.of_ofRing_mmap hmmap (by decide)]
    exact .of_load 3 (by decide +kernel) (by decide +kernel) (by decide)
  cq hsplit := by
    cases hsplit

/-- The small ring is set up, and every counter's slot is inside the mapping. -/
theorem setup_in_bounds_small :
    ∃ memory sq cq, setupQueue .entry .entry smallKernel 3 smallParams =
        some (.ok (memory, sq, cq)) ∧ InBounds .entry .entry memory sq cq := by
  have hapart : MaskApart smallParams :=
    fun _ _ => .inl (smallParams_apart _ (by simp [CqringOffsets.words]))
  obtain ⟨-, -, -, result, hsetup, hbounds⟩ :=
    @setup_in_bounds .entry .entry smallKernel 3 smallParams smallParams_layout
      smallKernel_fillsSizes hapart
  have returns : (setupQueue .entry .entry smallKernel 3 smallParams).map
      (Except.map fun _ => ()) = some (.ok ()) := by decide +kernel
  obtain ⟨⟨memory, sq, cq⟩, hok, -⟩ := of_map_ok returns
  exact ⟨memory, sq, cq, hok, hbounds _ _ _ (Option.some.inj (hsetup.symm.trans hok))⟩

/-! ## An array over the mask -/

/-- Eight submission entries and one completion entry, with the mask of the completion ring
under the last index of the array. -/
def coveredParams : Parameters :=
  { Parameters.zeroed with
    sqEntries := 8
    cqEntries := 1
    features := Sys.ioringFeatSingleMmap
    sqOff := ⟨0, 4, 8, 12, 16, 20, 64⟩
    cqOff := ⟨24, 28, 92, 32, 36, 96, 40⟩ }

theorem coveredParams_layout : coveredParams.Layout where
  sq_words offset h := by
    simp only [SqringOffsets.words, List.mem_cons, List.not_mem_nil, or_false] at h
    rcases h with rfl | rfl | rfl | rfl | rfl | rfl <;> decide
  cq_words offset h := by
    simp only [CqringOffsets.words, List.mem_cons, List.not_mem_nil, or_false] at h
    rcases h with rfl | rfl | rfl | rfl | rfl | rfl <;> decide

/-- The kernel's masks are 7 and 0. -/
def coveredRing : Mmap :=
  ⟨([0, 0, 7, 8, 0, 0, 0, 0, 1, 0, 0, 0] : List UInt32).flatMap Foundation.leBytes ++
    List.replicate 64 0⟩

def coveredKernel : Kernel := .ofRing coveredParams coveredRing

theorem coveredKernel_fillsSizes : coveredKernel.FillsSizes fd coveredParams where
  sq len m hmmap := by
    rw [Kernel.of_ofRing_mmap hmmap (by decide)]
    exact .of_load 7 (by decide +kernel) (by decide +kernel) (by decide)
  cq_single _ len m hmmap := by
    rw [Kernel.of_ofRing_mmap hmmap (by decide)]
    exact .of_load 0 (by decide +kernel) (by decide +kernel) (by decide)
  cq hsplit := by
    cases hsplit

/-- Without that, set-up reads back the index that it has itself stored as the mask, and a
completion is taken from beyond the end of the mapping. -/
theorem setup_out_of_bounds :
    coveredParams.Layout ∧ coveredKernel.FillsSizes 3 coveredParams ∧
      ∃ memory sq cq, setupQueue .entry .entry coveredKernel 3 coveredParams =
          some (.ok (memory, sq, cq)) ∧
        cq.ringMask = 7 ∧ memory.cq.len = 112 ∧
        cq.entryOffset .entry 7 + Cqueue.EntryType.entry.size = 224 ∧
        ¬ InBounds .entry .entry memory sq cq := by
  have returns : (setupQueue .entry .entry coveredKernel 3 coveredParams).map
      (Except.map fun (memory, _, cq) => (cq.ringMask, memory.cq.len, cq.entryOffset .entry 7)) =
        some (.ok (7, 112, 208)) := by decide +kernel
  obtain ⟨⟨memory, sq, cq⟩, hok, heq⟩ := of_map_ok returns
  simp only [Prod.mk.injEq] at heq
  obtain ⟨hmask, hlen, hoffset⟩ := heq
  have hend : cq.entryOffset .entry 7 + Cqueue.EntryType.entry.size = 224 := by rw [hoffset]; rfl
  refine ⟨coveredParams_layout, coveredKernel_fillsSizes, memory, sq, cq, hok, hmask, hlen, hend,
    ?_⟩
  intro hbounds
  have hle := hbounds.pop 7
  rw [hend, hlen] at hle
  exact absurd hle (by decide)

end Ring

end IoUring
