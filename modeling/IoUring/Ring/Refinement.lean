import IoUring.Ring.Mapped
import IoUring.Ring.Conservation
import Mathlib.Data.Fin.Basic

/-!
# The bytes refine the ring

Every word, index and entry of the two rings is a cell with a place in one of
the mappings. While no two places overlap, each access of the code and of the
kernel to the bytes is the access to the ring they are the image of: nothing
faults, no index is dropped, and every run of the mapped ring is a run of the
ring itself.
-/

namespace IoUring.Ring

open Foundation (Packed Place Regions Run)
open Submit

/-- What lies in the mappings of a ring with this many indices and entries. -/
inductive Cell (indices sqEntries cqEntries : Nat) where
  | sqHead
  | sqTail
  | sqFlags
  | sqDropped
  | index (k : Fin indices)
  | sqe (k : Fin sqEntries)
  | cqHead
  | cqTail
  | cqOverflow
  | cqFlags
  | cqe (k : Fin cqEntries)
  deriving DecidableEq

namespace Pointers

variable (ptr : Pointers)

def indices : Nat := if ptr.array.isSome then ptr.sq.ringEntries.toNat else 0

abbrev Cell : Type := Ring.Cell ptr.indices ptr.sq.ringEntries.toNat ptr.cq.ringEntries.toNat

variable (E C : Type) [Packed E] [Packed C]

def place : ptr.Cell → Place Mapping
  | .sqHead => .of UInt32 .sq ptr.sq.head
  | .sqTail => .of UInt32 .sq ptr.sq.tail
  | .sqFlags => .of UInt32 .sq ptr.sq.flags
  | .sqDropped => .of UInt32 .sq ptr.sq.dropped
  | .index k => .of UInt32 .sq (ptr.array.getD 0 + k * 4)
  | .sqe k => .of E .sqe (ptr.sq.sqes + k * Packed.size E)
  | .cqHead => .of UInt32 ptr.cqMapping ptr.cq.head
  | .cqTail => .of UInt32 ptr.cqMapping ptr.cq.tail
  | .cqOverflow => .of UInt32 ptr.cqMapping ptr.cq.overflow
  | .cqFlags => .of UInt32 ptr.cqMapping ptr.cq.flags
  | .cqe k => .of C ptr.cqMapping (ptr.cq.cqes + k * Packed.size C)

/-- No two cells overlap. -/
def Apart : Prop := Pairwise (Function.onFun Place.Apart (ptr.place E C))

variable {E C}

/-- The bytes of the cells: the array is the identity. -/
def contents (sq : Squeue.Inner E) (cq : Cqueue.Inner C) : ptr.Cell → List UInt8
  | .sqHead => Packed.bytes sq.head
  | .sqTail => Packed.bytes sq.tail
  | .sqFlags => Packed.bytes sq.flags
  | .sqDropped => Packed.bytes sq.dropped
  | .index k => Packed.bytes (UInt32.ofNat k)
  | .sqe k => Packed.bytes (sq.sqes k)
  | .cqHead => Packed.bytes cq.head
  | .cqTail => Packed.bytes cq.tail
  | .cqOverflow => Packed.bytes cq.overflow
  | .cqFlags => Packed.bytes cq.flags
  | .cqe k => Packed.bytes (cq.cqes k)

end Pointers

namespace Mapped

variable {E C : Type} [Packed E] [Packed C] {ptr : Pointers}

/-- The mappings hold the two rings. -/
structure Image (ptr : Pointers) (mem : Regions Mapping) (sq : Squeue.Inner E)
    (cq : Cqueue.Inner C) : Prop where
  sqEntries_eq : ptr.sq.ringEntries = sq.ringEntries
  sqMask_eq : ptr.sq.ringMask = sq.ringMask
  cqEntries_eq : ptr.cq.ringEntries = cq.ringEntries
  cqMask_eq : ptr.cq.ringMask = cq.ringMask
  cells : Regions.Image (ptr.place E C) (ptr.contents sq cq) mem

namespace Image

variable {mem : Regions Mapping} {sq : Squeue.Inner E} {cq : Cqueue.Inner C}

/-! ## Words and entries -/

theorem sqHead (h : Image ptr mem sq cq) : mem.fetch UInt32 .sq ptr.sq.head = some sq.head :=
  h.cells.fetch (i := .sqHead) rfl rfl

theorem sqTail (h : Image ptr mem sq cq) : mem.fetch UInt32 .sq ptr.sq.tail = some sq.tail :=
  h.cells.fetch (i := .sqTail) rfl rfl

theorem sqFlags (h : Image ptr mem sq cq) : mem.fetch UInt32 .sq ptr.sq.flags = some sq.flags :=
  h.cells.fetch (i := .sqFlags) rfl rfl

theorem cqHead (h : Image ptr mem sq cq) :
    mem.fetch UInt32 ptr.cqMapping ptr.cq.head = some cq.head :=
  h.cells.fetch (i := .cqHead) rfl rfl

theorem cqTail (h : Image ptr mem sq cq) :
    mem.fetch UInt32 ptr.cqMapping ptr.cq.tail = some cq.tail :=
  h.cells.fetch (i := .cqTail) rfl rfl

theorem slot_lt (h : Image ptr mem sq cq) (counter : UInt32) :
    (counter &&& ptr.sq.ringMask).toNat < ptr.sq.ringEntries.toNat := by
  rw [h.sqMask_eq, h.sqEntries_eq]
  exact sq.slotOf_lt counter

theorem cqSlot_lt (h : Image ptr mem sq cq) (counter : UInt32) :
    (counter &&& ptr.cq.ringMask).toNat < ptr.cq.ringEntries.toNat := by
  rw [h.cqMask_eq, h.cqEntries_eq]
  exact cq.slotOf_lt counter

theorem sqe (h : Image ptr mem sq cq) (counter : UInt32) :
    mem.fetch E .sqe (ptr.sq.entryAt E counter) = some (sq.sqes (sq.slotOf counter)) := by
  have hslot : sq.slotOf counter = (counter &&& ptr.sq.ringMask).toNat := by
    rw [h.sqMask_eq]
    rfl
  rw [hslot]
  exact h.cells.fetch (i := .sqe ⟨_, h.slot_lt counter⟩) rfl rfl

theorem cqe (h : Image ptr mem sq cq) (counter : UInt32) :
    mem.fetch C ptr.cqMapping (ptr.cq.entryAt C counter) =
      some (cq.cqes (cq.slotOf counter)) := by
  have hslot : cq.slotOf counter = (counter &&& ptr.cq.ringMask).toNat := by
    rw [h.cqMask_eq]
    rfl
  rw [hslot]
  exact h.cells.fetch (i := .cqe ⟨_, h.cqSlot_lt counter⟩) rfl rfl

/-- The index of a counter's slot is the slot. -/
theorem index (h : Image ptr mem sq cq) {array : Nat} (harray : ptr.array = some array)
    (counter : UInt32) :
    mem.fetch UInt32 .sq (array + (counter &&& ptr.sq.ringMask).toNat * 4) =
      some (counter &&& ptr.sq.ringMask) := by
  have hlt : (counter &&& ptr.sq.ringMask).toNat < ptr.indices := by
    rw [Pointers.indices, harray]
    exact h.slot_lt counter
  have hindex := h.cells.fetch (i := .index ⟨_, hlt⟩) rfl rfl
  rwa [harray, Option.getD_some, UInt32.ofNat_toNat] at hindex

/-- A store to one cell that changes the rings accordingly. -/
theorem put (apart : ptr.Apart E C) (h : Image ptr mem sq cq) (cell : ptr.Cell) {V : Type}
    [Packed V] {mapping : Mapping} {offset : Nat} {v : V} {sq' : Squeue.Inner E}
    {cq' : Cqueue.Inner C} (hsq : sq'.toRingSize = sq.toRingSize)
    (hcq : cq'.toRingSize = cq.toRingSize)
    (hplace : ptr.place E C cell = .of V mapping offset)
    (hcontents : Function.update (ptr.contents sq cq) cell (Packed.bytes v) =
      ptr.contents sq' cq') :
    ∃ mem', mem.put mapping offset v = some mem' ∧ Image ptr mem' sq' cq' := by
  obtain ⟨mem', hput, hcells⟩ := h.cells.put apart hplace v
  refine ⟨mem', hput, ?_, ?_, ?_, ?_, ?_⟩
  · rw [hsq]
    exact h.sqEntries_eq
  · rw [hsq]
    exact h.sqMask_eq
  · rw [hcq]
    exact h.cqEntries_eq
  · rw [hcq]
    exact h.cqMask_eq
  · rwa [← hcontents]

theorem putSqHead (apart : ptr.Apart E C) (h : Image ptr mem sq cq) (head : UInt32) :
    ∃ mem', mem.put .sq ptr.sq.head head = some mem' ∧
      Image ptr mem' { sq with head } cq := by
  refine h.put apart .sqHead rfl rfl rfl ?_
  funext cell
  cases cell <;> rfl

theorem putSqTail (apart : ptr.Apart E C) (h : Image ptr mem sq cq) (tail : UInt32) :
    ∃ mem', mem.put .sq ptr.sq.tail tail = some mem' ∧
      Image ptr mem' { sq with tail } cq := by
  refine h.put apart .sqTail rfl rfl rfl ?_
  funext cell
  cases cell <;> rfl

theorem putSqFlags (apart : ptr.Apart E C) (h : Image ptr mem sq cq) (flags : UInt32) :
    ∃ mem', mem.put .sq ptr.sq.flags flags = some mem' ∧
      Image ptr mem' { sq with flags } cq := by
  refine h.put apart .sqFlags rfl rfl rfl ?_
  funext cell
  cases cell <;> rfl

theorem putSqe (apart : ptr.Apart E C) (h : Image ptr mem sq cq) (counter : UInt32) (e : E) :
    ∃ mem', mem.put .sqe (ptr.sq.entryAt E counter) e = some mem' ∧
      Image ptr mem' { sq with sqes := Function.update sq.sqes (sq.slotOf counter) e } cq := by
  have hslot : sq.slotOf counter = (counter &&& ptr.sq.ringMask).toNat := by
    rw [h.sqMask_eq]
    rfl
  rw [hslot]
  refine h.put apart (.sqe ⟨_, h.slot_lt counter⟩) rfl rfl rfl ?_
  funext cell
  cases cell with
  | sqe k => simp [Function.update_apply, Pointers.contents, Fin.ext_iff, apply_ite Packed.bytes]
  | _ => rfl

theorem putCqHead (apart : ptr.Apart E C) (h : Image ptr mem sq cq) (head : UInt32) :
    ∃ mem', mem.put ptr.cqMapping ptr.cq.head head = some mem' ∧
      Image ptr mem' sq { cq with head } := by
  refine h.put apart .cqHead rfl rfl rfl ?_
  funext cell
  cases cell <;> rfl

theorem putCqTail (apart : ptr.Apart E C) (h : Image ptr mem sq cq) (tail : UInt32) :
    ∃ mem', mem.put ptr.cqMapping ptr.cq.tail tail = some mem' ∧
      Image ptr mem' sq { cq with tail } := by
  refine h.put apart .cqTail rfl rfl rfl ?_
  funext cell
  cases cell <;> rfl

theorem putCqe (apart : ptr.Apart E C) (h : Image ptr mem sq cq) (counter : UInt32) (e : C) :
    ∃ mem', mem.put ptr.cqMapping (ptr.cq.entryAt C counter) e = some mem' ∧
      Image ptr mem' sq { cq with cqes := Function.update cq.cqes (cq.slotOf counter) e } := by
  have hslot : cq.slotOf counter = (counter &&& ptr.cq.ringMask).toNat := by
    rw [h.cqMask_eq]
    rfl
  rw [hslot]
  refine h.put apart (.cqe ⟨_, h.cqSlot_lt counter⟩) rfl rfl rfl ?_
  funext cell
  cases cell with
  | cqe k => simp [Function.update_apply, Pointers.contents, Fin.ext_iff, apply_ite Packed.bytes]
  | _ => rfl

/-! ## The submission queue -/

theorem isFull_eq (h : Image ptr mem sq cq) (handle : Squeue.SubmissionQueue) :
    ptr.sq.isFull handle = handle.isFull sq := by
  rw [Squeue.RawInner.isFull, h.sqEntries_eq]
  rfl

theorem pushUnchecked (apart : ptr.Apart E C) (h : Image ptr mem sq cq)
    (handle : Squeue.SubmissionQueue) (entry : E) :
    ∃ mem', ptr.sq.pushUnchecked mem handle entry =
        some ((handle.pushUnchecked sq entry).1, mem') ∧
      Image ptr mem' (handle.pushUnchecked sq entry).2 cq := by
  obtain ⟨mem', hput, himage⟩ := h.putSqe apart handle.tail entry
  refine ⟨mem', ?_, himage⟩
  rw [Squeue.RawInner.pushUnchecked, hput]
  rfl

theorem pushAll (apart : ptr.Apart E C) (h : Image ptr mem sq cq)
    (handle : Squeue.SubmissionQueue) (entries : List E) :
    ∃ mem', ptr.sq.pushAll mem handle entries =
        some ((handle.pushAll sq entries).1, mem') ∧
      Image ptr mem' (handle.pushAll sq entries).2 cq := by
  induction entries generalizing mem sq handle with
  | nil => exact ⟨mem, rfl, h⟩
  | cons entry rest ih =>
      obtain ⟨mem₁, hfirst, h₁⟩ := h.pushUnchecked apart handle entry
      obtain ⟨mem₂, hrest, h₂⟩ := ih h₁ (handle.pushUnchecked sq entry).1
      refine ⟨mem₂, ?_, h₂⟩
      rw [Squeue.RawInner.pushAll, hfirst]
      exact hrest

/-- A call faults nowhere, and what it shows is a step of the ring. -/
theorem sqCall (apart : ptr.Apart E C) (h : Image ptr mem sq cq) (app : Squeue.App)
    (call : Squeue.RawInner.Call E) :
    ∃ result, ptr.sq.call mem app call = some result ∧
      ∀ event app' mem', result = some (event, app', mem') →
        ∃ sq', Squeue.Step ⟨sq, app⟩ event ⟨sq', app'⟩ ∧ (∀ entry, event ≠ .read entry) ∧
          Image ptr mem' sq' cq := by
  unfold Squeue.RawInner.call
  split
  · rw [Squeue.RawInner.borrowShared, h.sqHead, h.sqTail]
    refine ⟨_, rfl, ?_⟩
    rintro _ _ _ ⟨⟩
    exact ⟨sq, .borrow, nofun, h⟩
  · rename_i handle entry
    rw [Squeue.RawInner.push, h.isFull_eq]
    obtain ⟨mem', hpush, himage⟩ := h.pushUnchecked apart handle entry
    cases hfull : handle.isFull sq with
    | true =>
        have herror : handle.push sq entry = .error .pushError := if_neg (by simp [hfull])
        refine ⟨_, rfl, ?_⟩
        rintro _ _ _ ⟨⟩
        exact ⟨sq, .pushError herror, nofun, h⟩
    | false =>
        have hok : handle.push sq entry = .ok (handle.pushUnchecked sq entry) :=
          if_pos (by simp [hfull])
        rw [hpush]
        refine ⟨_, rfl, ?_⟩
        rintro _ _ _ ⟨⟩
        exact ⟨_, .push hok, nofun, himage⟩
  · rename_i handle entries
    rw [Squeue.RawInner.pushMultiple, h.sqEntries_eq]
    by_cases hfits : (sq.ringEntries.toUInt64 - handle.len).toNat < entries.length
    · have herror : handle.pushMultiple sq entries = .error .pushError := if_pos hfits
      rw [if_pos hfits]
      refine ⟨_, rfl, ?_⟩
      rintro _ _ _ ⟨⟩
      exact ⟨sq, .pushMultipleError herror, nofun, h⟩
    · obtain ⟨mem', hpush, himage⟩ := h.pushAll apart handle entries
      have hok : handle.pushMultiple sq entries = .ok (handle.pushAll sq entries) :=
        if_neg hfits
      rw [if_neg hfits, hpush]
      refine ⟨_, rfl, ?_⟩
      rintro _ _ _ ⟨⟩
      exact ⟨_, .pushMultiple hok, nofun, himage⟩
  · rename_i handle
    obtain ⟨mem', hput, himage⟩ := h.putSqTail apart handle.tail
    rw [Squeue.RawInner.storeTail, hput]
    refine ⟨_, rfl, ?_⟩
    rintro _ _ _ ⟨⟩
    exact ⟨_, .syncStore, nofun, himage⟩
  · rw [Squeue.RawInner.loadHead, h.sqHead]
    refine ⟨_, rfl, ?_⟩
    rintro _ _ _ ⟨⟩
    exact ⟨sq, .syncLoad, nofun, h⟩
  · rename_i handle
    obtain ⟨mem', hput, himage⟩ := h.putSqTail apart handle.tail
    rw [Squeue.RawInner.storeTail, hput]
    refine ⟨_, rfl, ?_⟩
    rintro _ _ _ ⟨⟩
    exact ⟨_, .drop, nofun, himage⟩
  · refine ⟨_, rfl, ?_⟩
    rintro _ _ _ ⟨⟩
    exact ⟨sq, .leak, nofun, h⟩
  · exact ⟨none, rfl, nofun⟩

/-! ## The completion queue -/

theorem pop (h : Image ptr mem sq cq) (handle : Cqueue.CompletionQueue) :
    ptr.cq.pop ptr.cqMapping mem handle = some (handle.pop cq) := by
  rw [Cqueue.RawInner.pop, h.cqe]
  rfl

theorem next (h : Image ptr mem sq cq) (handle : Cqueue.CompletionQueue) :
    ptr.cq.next ptr.cqMapping mem handle = some (handle.next cq) := by
  rw [Cqueue.RawInner.next, Cqueue.CompletionQueue.next]
  split
  · rw [h.pop]
    rfl
  · rfl

theorem popEach (h : Image ptr mem sq cq) (handle : Cqueue.CompletionQueue)
    (entries : List (Option C)) :
    ptr.cq.popEach ptr.cqMapping mem handle entries = some (handle.popEach cq entries) := by
  induction entries generalizing handle with
  | nil => rfl
  | cons slot rest ih =>
      rw [Cqueue.RawInner.popEach, h.pop]
      simp only [Option.bind_eq_bind, Option.bind_some, ih]
      rfl

theorem fill (h : Image ptr mem sq cq) (handle : Cqueue.CompletionQueue)
    (entries : List (Option C)) :
    ptr.cq.fill ptr.cqMapping mem handle entries = some (handle.fill cq entries) := by
  simp only [Cqueue.RawInner.fill, h.popEach, Option.bind_eq_bind, Option.bind_some]
  rfl

/-- A call faults nowhere, and what it shows is a step of the ring. -/
theorem cqCall (apart : ptr.Apart E C) (h : Image ptr mem sq cq) (app : Cqueue.App)
    (call : Cqueue.RawInner.Call C) :
    ∃ result, ptr.cq.call ptr.cqMapping mem app call = some result ∧
      ∀ event app' mem', result = some (event, app', mem') →
        ∃ cq', Cqueue.Step ⟨cq, app⟩ event ⟨cq', app'⟩ ∧ (∀ cqe, event ≠ .posted cqe) ∧
          Image ptr mem' sq cq' := by
  unfold Cqueue.RawInner.call
  split
  · rw [Cqueue.RawInner.borrowShared, h.cqHead, h.cqTail]
    refine ⟨_, rfl, ?_⟩
    rintro _ _ _ ⟨⟩
    exact ⟨cq, .borrow, nofun, h⟩
  · rename_i handle
    rw [h.next]
    cases hnext : handle.next cq with
    | none =>
        refine ⟨_, rfl, ?_⟩
        rintro _ _ _ ⟨⟩
        exact ⟨cq, .nextNone hnext, nofun, h⟩
    | some popped =>
        refine ⟨_, rfl, ?_⟩
        rintro _ _ _ ⟨⟩
        exact ⟨cq, .next hnext, nofun, h⟩
  · rename_i handle entries
    rw [h.fill]
    refine ⟨_, rfl, ?_⟩
    rintro _ _ _ ⟨⟩
    exact ⟨cq, .fill entries rfl, nofun, h⟩
  · rename_i handle
    obtain ⟨mem', hput, himage⟩ := h.putCqHead apart handle.head
    rw [Cqueue.RawInner.storeHead, hput]
    refine ⟨_, rfl, ?_⟩
    rintro _ _ _ ⟨⟩
    exact ⟨_, .syncStore, nofun, himage⟩
  · rw [Cqueue.RawInner.loadTail, h.cqTail]
    refine ⟨_, rfl, ?_⟩
    rintro _ _ _ ⟨⟩
    exact ⟨cq, .syncLoad, nofun, h⟩
  · rename_i handle
    obtain ⟨mem', hput, himage⟩ := h.putCqHead apart handle.head
    rw [Cqueue.RawInner.storeHead, hput]
    refine ⟨_, rfl, ?_⟩
    rintro _ _ _ ⟨⟩
    exact ⟨_, .drop, nofun, himage⟩
  · exact ⟨none, rfl, nofun⟩

/-! ## The kernel -/

/-- The kernel reads the entry of its head's slot, with the array and without. -/
theorem kernelRead (apart : ptr.Apart E C) (h : Image ptr mem sq cq) :
    (sq.kernelRead = none ∧ Mapped.kernelRead ptr E mem = some none) ∨
      ∃ entry sq' mem', sq.kernelRead = some (entry, sq') ∧
        Mapped.kernelRead ptr E mem = some (some (some entry, mem')) ∧
        Image ptr mem' sq' cq := by
  rw [Squeue.Inner.kernelRead, Mapped.kernelRead, h.sqHead, h.sqTail]
  simp only [Option.bind_eq_bind, Option.bind_some]
  by_cases hempty : sq.head = sq.tail
  · exact .inl ⟨if_pos hempty, if_pos hempty⟩
  · obtain ⟨mem', hput, himage⟩ := h.putSqHead apart (sq.head + 1)
    refine .inr ⟨sq.sqes (sq.slotOf sq.head), _, mem', if_neg hempty, ?_, himage⟩
    rw [if_neg hempty]
    cases harray : ptr.array with
    | none => simp only [h.sqe, hput, Option.bind_some]
    | some array =>
        have hlt : sq.head &&& ptr.sq.ringMask < ptr.sq.ringEntries :=
          UInt32.lt_iff_toNat_lt.mpr (h.slot_lt sq.head)
        have hentry := h.sqe sq.head
        rw [Squeue.RawInner.entryAt] at hentry
        simp only [h.index harray, hlt, if_true, hentry, hput, Option.bind_some]

/-- The kernel posts to the slot of its tail while there is room. -/
theorem kernelPost (apart : ptr.Apart E C) (h : Image ptr mem sq cq) (cqe : C) :
    (cq.kernelPost cqe = none ∧ Mapped.kernelPost ptr mem cqe = some none) ∨
      ∃ cq' mem', cq.kernelPost cqe = some cq' ∧
        Mapped.kernelPost ptr mem cqe = some (some mem') ∧ Image ptr mem' sq cq' := by
  rw [Cqueue.Inner.kernelPost, Mapped.kernelPost, h.cqHead, h.cqTail, h.cqEntries_eq]
  simp only [Option.bind_eq_bind, Option.bind_some]
  by_cases hroom : cq.tail - cq.head < cq.ringEntries
  · obtain ⟨mem₁, hentry, h₁⟩ := h.putCqe apart cq.tail cqe
    obtain ⟨mem₂, htail, h₂⟩ := h₁.putCqTail apart (cq.tail + 1)
    refine .inr ⟨_, mem₂, if_pos hroom, ?_, h₂⟩
    simp only [hroom, if_true, hentry, htail, Option.bind_some]
  · exact .inl ⟨if_neg hroom, if_neg hroom⟩

/-- The loop of the flush, completion by completion. -/
theorem flush (apart : ptr.Apart E C) (h : Image ptr mem sq cq) (cqes : List C) :
    ∃ moved left mem' cq', Mapped.flush ptr mem cqes = some (moved, left, mem') ∧
      Ring.flush cq cqes = (moved, left, cq') ∧ Image ptr mem' sq cq' := by
  induction cqes generalizing mem cq with
  | nil => exact ⟨[], [], mem, cq, rfl, rfl, h⟩
  | cons cqe rest ih =>
      rcases h.kernelPost apart cqe with ⟨hfull, hraw⟩ | ⟨cq₁, mem₁, hpost, hraw, h₁⟩
      · refine ⟨[], cqe :: rest, mem, cq, ?_, ?_, h⟩
        · rw [Mapped.flush, hraw]
          rfl
        · rw [Ring.flush, hfull]
      · obtain ⟨moved, left, mem₂, cq₂, hflush, hring, h₂⟩ := ih h₁
        refine ⟨cqe :: moved, left, mem₂, cq₂, ?_, ?_, h₂⟩
        · rw [Mapped.flush, hraw]
          simp only [Option.bind_eq_bind, Option.bind_some, hflush]
        · rw [Ring.flush, hpost]
          simp only [hring]

theorem changeFlags (apart : ptr.Apart E C) (h : Image ptr mem sq cq)
    (change : UInt32 → UInt32) :
    ∃ mem', Mapped.changeFlags ptr mem change = some mem' ∧
      Image ptr mem' { sq with flags := change sq.flags } cq := by
  obtain ⟨mem', hput, himage⟩ := h.putSqFlags apart (change sq.flags)
  refine ⟨mem', ?_, himage⟩
  rw [Mapped.changeFlags, h.sqFlags]
  exact hput

end Image

/-! ## Steps and runs -/

/-- The bytes with the rings they are the image of, in the same state otherwise. -/
inductive Refines (ptr : Pointers) : State C → Ring.State E C → Prop
  | intro {mem sq sqApp cq cqApp inFlight overflow pc} (h : Image ptr mem sq cq) :
      Refines ptr ⟨mem, sqApp, cqApp, inFlight, overflow, pc⟩
        ⟨sq, sqApp, cq, cqApp, inFlight, overflow, pc⟩

variable [Squeue.EntryMarker E] [Cqueue.EntryMarker C] {s : Submitter}

/-- An action on the bytes is blocked or a step of the ring; it neither faults nor drops. -/
inductive Matched (ptr : Pointers) (s : Submitter) (τ : Ring.State E C) :
    Option (Result E C) → Prop
  | blocked : Matched ptr s τ (some .blocked)
  | stepped {event σ' τ'} (h : Ring.Step s τ event τ') (refines : Refines ptr σ' τ') :
      Matched ptr s τ (some (.stepped event σ'))

namespace Image

variable {mem : Regions Mapping} {sq : Squeue.Inner E} {cq : Cqueue.Inner C}
  {sqApp : Squeue.App} {cqApp : Cqueue.App} {inFlight : List UInt64} {overflow : List C} {pc : Pc}

theorem consume (apart : ptr.Apart E C) (h : Image ptr mem sq cq) (pc' : Pc)
    (hstep : ∀ entry sq', sq.kernelRead = some (entry, sq') →
      Ring.Step s ⟨sq, sqApp, cq, cqApp, inFlight, overflow, pc⟩ (.sq (.read entry))
        ⟨sq', sqApp, cq, cqApp, inFlight ++ [Squeue.EntryMarker.getUserData entry], overflow,
          pc'⟩) :
    Matched ptr s ⟨sq, sqApp, cq, cqApp, inFlight, overflow, pc⟩
      (Mapped.consume ptr E ⟨mem, sqApp, cqApp, inFlight, overflow, pc⟩ pc') := by
  rw [Mapped.consume]
  rcases h.kernelRead apart with ⟨-, hraw⟩ | ⟨entry, sq', mem', hread, hraw, himage⟩
  · rw [hraw]
    exact .blocked
  · rw [hraw]
    exact .stepped (hstep entry sq' hread) (.intro himage)

theorem leave (apart : ptr.Apart E C) (h : Image ptr mem sq cq) (call : EnterCall) :
    Matched ptr s ⟨sq, sqApp, cq, cqApp, inFlight, overflow, .reaping call⟩
      (Mapped.leave ptr E ⟨mem, sqApp, cqApp, inFlight, overflow, .reaping call⟩ call) := by
  rw [Mapped.leave]
  by_cases hflag : call.flag &&& Sys.ioringEnterGetevents ≠ 0
  · obtain ⟨moved, left, mem₁, cq', hraw, hflush, h₁⟩ := h.flush apart overflow
    have hstep : Ring.Step s ⟨sq, sqApp, cq, cqApp, inFlight, overflow, .reaping call⟩
        (.flushed moved) ⟨afterFlush sq left, sqApp, cq', cqApp, inFlight, left, .idle⟩ :=
      .flush hflag hflush
    simp only [if_pos hflag, hraw, Option.bind_eq_bind, Option.bind_some]
    rw [afterFlush] at hstep
    cases hleft : left.isEmpty with
    | true =>
        obtain ⟨mem₂, hclear, h₂⟩ := h₁.changeFlags apart (· &&& ~~~Sys.ioringSqCqOverflow)
        rw [hleft, if_pos rfl] at hstep
        rw [if_pos rfl, hclear]
        exact .stepped hstep (.intro h₂)
    | false =>
        rw [hleft, if_neg Bool.false_ne_true] at hstep
        exact .stepped hstep (.intro h₁)
  · rw [if_neg hflag]
    exact .stepped (.leave (not_not.mp hflag)) (.intro h)

theorem complete (apart : ptr.Apart E C) (h : Image ptr mem sq cq) {before after : List UInt64}
    {data : UInt64} {cqe : C} (hdata : Cqueue.EntryMarker.userData cqe = data) :
    Matched ptr s ⟨sq, sqApp, cq, cqApp, before ++ data :: after, overflow, pc⟩
      (Mapped.complete ptr E ⟨mem, sqApp, cqApp, before ++ data :: after, overflow, pc⟩
        (before ++ after) cqe) := by
  have overflows (hfull : overflow ≠ [] ∨ cq.kernelPost cqe = none) :
      ∃ mem', Mapped.changeFlags ptr mem (· ||| Sys.ioringSqCqOverflow) = some mem' ∧
        Matched ptr s ⟨sq, sqApp, cq, cqApp, before ++ data :: after, overflow, pc⟩
          (some (.stepped .silent
            ⟨mem', sqApp, cqApp, before ++ after, overflow ++ [cqe], pc⟩)) := by
    obtain ⟨mem', hraise, himage⟩ := h.changeFlags apart (· ||| Sys.ioringSqCqOverflow)
    exact ⟨mem', hraise, .stepped (.completeOverflow before cqe hdata hfull) (.intro himage)⟩
  rw [Mapped.complete]
  cases overflow with
  | nil =>
      rcases h.kernelPost apart cqe with ⟨hfull, hraw⟩ | ⟨cq', mem', hpost, hraw, himage⟩
      · obtain ⟨mem', hraise, hmatched⟩ := overflows (.inr hfull)
        simp only [List.isEmpty_nil, if_true, hraw, hraise, Option.bind_eq_bind, Option.bind_some]
        exact hmatched
      · simp only [List.isEmpty_nil, if_true, hraw, Option.bind_eq_bind, Option.bind_some]
        exact .stepped (.complete before hdata hpost) (.intro himage)
  | cons first rest =>
      obtain ⟨mem', hraise, hmatched⟩ := overflows (.inl (List.cons_ne_nil first rest))
      simp only [List.isEmpty_cons, hraise, Option.bind_eq_bind, Option.bind_some]
      exact hmatched

end Image

/-- The step lemma: every action of every party on the bytes of two rings. -/
theorem Refines.perform (apart : ptr.Apart E C) {σ : State C} {τ : Ring.State E C}
    (h : Refines ptr σ τ) (action : Action E C) :
    Matched ptr s τ (Mapped.perform ptr s σ action) := by
  obtain @⟨mem, sq, sqApp, cq, cqApp, inFlight, overflow, pc, h⟩ := h
  cases action with
  | sq call =>
      obtain ⟨result, hcall, hshows⟩ := h.sqCall apart sqApp call
      simp only [Mapped.perform, hcall, Option.bind_eq_bind, Option.bind_some]
      match result, hshows with
      | none, _ => exact .blocked
      | some (event, app', mem'), hshows =>
          obtain ⟨sq', hstep, happ, himage⟩ := hshows event app' mem' rfl
          exact .stepped (.submission hstep happ) (.intro himage)
  | cq call =>
      obtain ⟨result, hcall, hshows⟩ := h.cqCall apart cqApp call
      simp only [Mapped.perform, hcall, Option.bind_eq_bind, Option.bind_some]
      match result, hshows with
      | none, _ => exact .blocked
      | some (event, app', mem'), hshows =>
          obtain ⟨cq', hstep, happ, himage⟩ := hshows event app' mem' rfl
          exact .stepped (.completion hstep happ) (.intro himage)
  | call req =>
      cases pc with
      | idle => exact .stepped (.call req) (.intro h)
      | _ => exact .blocked
  | loadHead =>
      cases pc with
      | called req =>
          simp only [Mapped.perform, h.sqHead, Option.bind_eq_bind, Option.bind_some]
          exact .stepped .loadHead (.intro h)
      | _ => exact .blocked
  | loadTail =>
      cases pc with
      | headLoaded req head =>
          simp only [Mapped.perform, h.sqTail, Option.bind_eq_bind, Option.bind_some]
          exact .stepped .loadTail (.intro h)
      | _ => exact .blocked
  | loadOverflow =>
      cases pc with
      | lenLoaded req len =>
          simp only [Mapped.perform, h.sqFlags, Option.bind_eq_bind, Option.bind_some]
          exact .stepped .loadOverflow (.intro h)
      | _ => exact .blocked
  | decide =>
      cases pc with
      | overflowLoaded req len f1 =>
          simp only [Mapped.perform, h.sqFlags, Option.bind_eq_bind, Option.bind_some]
          cases hfinish : s.finish len f1 sq.flags req with
          | ok res => exact .stepped (.returnOk hfinish) (.intro h)
          | enter call => exact .stepped (.enter hfinish) (.intro h)
      | _ => exact .blocked
  | consume =>
      cases pc with
      | submitting call left =>
          cases left with
          | zero => exact .blocked
          | succ left => exact h.consume apart _ fun _ _ hread => .consume hread
      | _ => exact .blocked
  | poll =>
      rw [Mapped.perform]
      split
      · rename_i hpoll
        exact h.consume apart pc fun _ _ hread => .poll hpoll hread
      · exact .blocked
  | submitted =>
      cases pc with
      | submitting call left => exact .stepped .submitted (.intro h)
      | _ => exact .blocked
  | leave =>
      cases pc with
      | reaping call => exact h.leave apart call
      | _ => exact .blocked
  | complete before data after cqe =>
      rw [Mapped.perform]
      split
      · rename_i hrequest
        obtain ⟨rfl, hdata⟩ := hrequest
        exact h.complete apart hdata
      · exact .blocked
  | otherFlags change =>
      simp only [Mapped.perform, h.sqFlags, Option.bind_eq_bind, Option.bind_some]
      split
      · rename_i hkeeps
        obtain ⟨mem', hchange, himage⟩ := h.changeFlags apart change
        rw [hchange]
        exact .stepped (.otherFlags hkeeps) (.intro himage)
      · exact .blocked

/-- Every run on the bytes is a run of the ring, and no action at its end faults or drops. -/
theorem Refines.run (apart : ptr.Apart E C) {σ₀ σ : State C} {τ₀ : Ring.State E C}
    (h : Refines ptr σ₀ τ₀) {events : List (Event E C)} (run : Run (Step ptr s) σ₀ events σ) :
    ∃ τ, Run (Ring.Step s) τ₀ events τ ∧ Refines ptr σ τ := by
  apply run.simulate h
  intro σ event σ' τ h hstep
  obtain ⟨action, hperform⟩ := hstep
  have hmatched := h.perform (s := s) apart action
  rw [hperform] at hmatched
  obtain - | ⟨hstep, refines⟩ := hmatched
  exact ⟨_, hstep, refines⟩

end Mapped

end IoUring.Ring
