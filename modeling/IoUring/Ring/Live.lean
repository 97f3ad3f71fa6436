import IoUring.Ring.Bounds
import IoUring.Squeue.Indirection

/-!
# The submission ring in its mapping

The words of a submission ring and its index array, as they lie in the mapping.
`Inner::new` on the mapping does what it does on the words; on the mapping of a
live ring it leaves every byte as it is.
-/

namespace IoUring.Ring

open Foundation (Run)
open Squeue (Memory RawInner)

variable {E : Type*}

/-- The mapping holds these words at the offsets of the parameters. -/
structure Views (p : Parameters) (ring : Mmap) (m : Memory E) : Prop where
  head_eq : ring.loadWord p.sqOff.head.toNat = some m.head
  tail_eq : ring.loadWord p.sqOff.tail.toNat = some m.tail
  ringMask_eq : ring.loadWord p.sqOff.ringMask.toNat = some m.ringMask
  ringEntries_eq : ring.loadWord p.sqOff.ringEntries.toNat = some m.ringEntries
  flags_eq : ring.loadWord p.sqOff.flags.toNat = some m.flags
  dropped_eq : ring.loadWord p.sqOff.dropped.toNat = some m.dropped
  array_eq : ∀ k < m.slots, ring.loadWord (p.sqOff.array.toNat + 4 * k) = some (m.array k)

/-- No word of the header lies in the array. -/
def ArrayApart (p : Parameters) (slots : Nat) : Prop :=
  ∀ offset ∈ p.sqOff.words, offset.toNat + 4 ≤ p.sqOff.array.toNat ∨
    p.sqOff.array.toNat + 4 * slots ≤ offset.toNat

variable {p : Parameters} {ring : Mmap} {m : Memory E}

theorem Views.array_end (h : Views p ring m) :
    p.sqOff.array.toNat + 4 * m.slots ≤ ring.len := by
  have hslots := m.slots_pos
  have hlast := Mmap.of_loadWord (h.array_eq (m.slots - 1) (by omega))
  omega

/-- The mapping as the loop over the array leaves it is the mapping `Inner::new` leaves. -/
theorem Views.rawInner_new {ring' : Mmap} (h : Views p ring m)
    (hinit : (if p.flags &&& Sys.ioringSetupNoSqarray == 0 then
      Squeue.initArray ring p.sqOff.array.toNat m.ringEntries.toNat else some ring) = some ring') :
    ∃ raw, RawInner.new ring p = some (raw, ring') := by
  refine ⟨⟨p.sqOff.head.toNat, p.sqOff.tail.toNat, m.ringMask, m.ringEntries,
    p.sqOff.flags.toNat, p.sqOff.dropped.toNat, 0⟩, ?_⟩
  simp only [RawInner.new, h.ringMask_eq, h.ringEntries_eq, Option.bind_eq_bind, Option.bind_some]
  split at hinit
  · rw [if_pos ‹_›, hinit, Option.bind_some]
  · rw [if_neg ‹_›, Option.some.inj hinit]

/-- `Inner::new` on the mapping is `Inner::new` on the words it holds. -/
theorem Views.new (h : Views p ring m) (apart : ArrayApart p m.slots) :
    ∃ raw ring', RawInner.new ring p = some (raw, ring') ∧ Views p ring' (m.new p.flags) := by
  by_cases hflags : p.flags &&& Sys.ioringSetupNoSqarray = 0
  · have hflag : (p.flags &&& Sys.ioringSetupNoSqarray == 0) = true := beq_iff_eq.mpr hflags
    obtain ⟨ring', hinit, -, hidentity⟩ := Squeue.initArray_spec h.array_end
    obtain ⟨raw, hraw⟩ := h.rawInner_new ((if_pos hflag).trans hinit)
    have hnew : m.new p.flags =
        { m with array := Squeue.writeIdentity m.array m.ringEntries.toNat } := if_pos hflag
    have hword (offset : UInt32) (hmem : offset ∈ p.sqOff.words) :
        ring'.loadWord offset.toNat = ring.loadWord offset.toNat :=
      Squeue.initArray_keeps hinit (apart offset hmem)
    simp only [SqringOffsets.words, List.forall_mem_cons, List.not_mem_nil, false_implies,
      implies_true, and_true] at hword
    obtain ⟨hhead, htail, hmask, hentries, hflagsWord, hdropped⟩ := hword
    refine ⟨raw, ring', hraw, ?_⟩
    rw [hnew]
    exact
      { head_eq := hhead.trans h.head_eq
        tail_eq := htail.trans h.tail_eq
        ringMask_eq := hmask.trans h.ringMask_eq
        ringEntries_eq := hentries.trans h.ringEntries_eq
        flags_eq := hflagsWord.trans h.flags_eq
        dropped_eq := hdropped.trans h.dropped_eq
        array_eq := fun k hk => by
          rw [hidentity k hk]
          exact congrArg some (Squeue.Indirection.writeIdentity_of_lt hk).symm }
  · have hflag : ¬(p.flags &&& Sys.ioringSetupNoSqarray == 0) = true :=
      fun h => hflags (beq_iff_eq.mp h)
    obtain ⟨raw, hraw⟩ := h.rawInner_new (if_neg hflag)
    refine ⟨raw, ring, hraw, ?_⟩
    rw [Memory.new, if_neg hflag]
    exact h

/-- Where the array is the identity already the loop changes no byte. -/
theorem initArray_of_identity {array n : Nat}
    (h : ∀ k < n, ring.loadWord (array + 4 * k) = some (.ofNat k)) :
    Squeue.initArray ring array n = some ring := by
  induction n with
  | zero => rfl
  | succ n ih =>
      have hbefore := ih fun k hk => h k (by omega)
      simp only [Squeue.initArray, hbefore, Option.bind_eq_bind, Option.bind_some]
      exact Mmap.storeWord_of_loadWord (h n (by omega))

/-- At any point of a run of the ring, `Inner::new` over its mapping leaves it byte for byte. -/
theorem new_over_live_ring {events : List (Squeue.Indirection.Event E)}
    {s : Squeue.Indirection.State E}
    (run : Run (Squeue.Indirection.Step p.flags) ⟨m.new p.flags, .none⟩ events s)
    (views : Views p ring s.memory) : ∃ raw, RawInner.new ring p = some (raw, ring) := by
  obtain ⟨t, -, h⟩ := Squeue.Indirection.Step.run_matched run
  by_cases hflags : p.flags &&& Sys.ioringSetupNoSqarray = 0
  · have hflag : (p.flags &&& Sys.ioringSetupNoSqarray == 0) = true := beq_iff_eq.mpr hflags
    have hinit : Squeue.initArray ring p.sqOff.array.toNat s.memory.ringEntries.toNat = some ring :=
      initArray_of_identity fun k hk => by
        rw [views.array_eq k hk, h.faithful hflags k hk]
    exact views.rawInner_new ((if_pos hflag).trans hinit)
  · have hflag : ¬(p.flags &&& Sys.ioringSetupNoSqarray == 0) = true :=
      fun h => hflags (beq_iff_eq.mp h)
    exact views.rawInner_new (if_neg hflag)

end IoUring.Ring
