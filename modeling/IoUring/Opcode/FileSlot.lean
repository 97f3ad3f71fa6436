import IoUring.Opcode.Op

/-!
# Slots of the registered files in `file_index`

The kernel keeps zero for an entry without a slot, so a slot is stored plus one.
`Close` stores any index; a destination has a second reserved value, for a slot
that the kernel allocates, and is checked when it is made.
-/

namespace IoUring.Opcode

open Squeue IoUring.Types

/-- The file that the kernel closes for an entry. -/
def closeTarget (sqe : Sqe) : Target :=
  if sqe.fileIndex ≠ 0 then .fixed (sqe.fileIndex - 1) else .fd sqe.fd

namespace Close

/-- In a debug build one target panics, and the others are built as in a release build. -/
theorem checkedBuild_eq (op : Close) :
    op.checkedBuild = if op.fd = .fixed 0xffffffff then none else some op.build := by
  obtain ⟨target⟩ := op
  cases target with
  | fd fd => rfl
  | fixed idx =>
      have hmax : idx.toNat + 1 < UInt32.size ↔ idx ≠ 0xffffffff := by
        rw [Ne, ← UInt32.toNat_inj]
        have hlt := idx.toNat_lt
        change idx.toNat + 1 < 4294967296 ↔ ¬ idx.toNat = 4294967295
        omega
      simp only [checkedBuild, build, hmax, Target.fixed.injEq]
      by_cases h : idx = 0xffffffff <;> simp [h]

theorem closeTarget_build (op : Close) :
    closeTarget op.build.sqe = if op.fd = .fixed 0xffffffff then .fd 0 else op.fd := by
  obtain ⟨target⟩ := op
  cases target with
  | fd fd => rfl
  | fixed idx =>
      by_cases h : idx = 0xffffffff
      · rw [h]
        rfl
      · have hne : idx + 1 ≠ 0 := by grind
        have hback : idx + 1 - 1 = idx := UInt32.add_sub_cancel idx 1
        simp [closeTarget, build, hne, hback, h]

/-- A target is built without an overflow, decodes to itself and is the only one with its entry
exactly if it is not the last index; and where the addition wraps instead, the targets but that
one still decode to themselves and have entries of their own. -/
theorem closes_target_iff (target : Target) :
    ((∃ entry, (Close.mk target).checkedBuild = some entry ∧ closeTarget entry.sqe = target ∧
          ∀ other, (Close.mk other).checkedBuild = some entry → other = target) ↔
        target ≠ .fixed 0xffffffff) ∧
      ((closeTarget (Close.mk target).build.sqe = target ∧
          ∀ other, other ≠ .fixed 0xffffffff →
            (Close.mk other).build = (Close.mk target).build → other = target) ↔
        target ≠ .fixed 0xffffffff) := by
  by_cases hmax : target = .fixed 0xffffffff
  · refine ⟨iff_of_false ?_ (not_not_intro hmax), iff_of_false ?_ (not_not_intro hmax)⟩
    · rintro ⟨entry, hbuild, -⟩
      rw [checkedBuild_eq, if_pos hmax] at hbuild
      cases hbuild
    · rintro ⟨hdecode, -⟩
      rw [closeTarget_build, if_pos hmax, hmax] at hdecode
      cases hdecode
  · have hdecode : closeTarget (Close.mk target).build.sqe = target := by
      rw [closeTarget_build, if_neg hmax]
    have honly : ∀ other, other ≠ .fixed 0xffffffff →
        (Close.mk other).build = (Close.mk target).build → other = target := by
      intro other hother heq
      rw [← hdecode, ← heq, closeTarget_build, if_neg hother]
    refine ⟨iff_of_true ⟨(Close.mk target).build, ?_, hdecode, ?_⟩ hmax,
      iff_of_true ⟨hdecode, honly⟩ hmax⟩
    · rw [checkedBuild_eq, if_neg hmax]
    · intro other hbuild
      rw [checkedBuild_eq] at hbuild
      split at hbuild
      · cases hbuild
      · rename_i hother
        exact honly other hother (Option.some.inj hbuild)

/-- The last index overflows, and where it wraps closes descriptor 0 of the process. -/
theorem close_last_index :
    (Close.mk (.fixed 0xffffffff)).checkedBuild = none ∧
      closeTarget (Close.mk (.fixed 0xffffffff)).build.sqe = .fd 0 ∧
      (Close.mk (.fixed 0xffffffff)).build = (Close.mk (.fd 0)).build := by
  decide

end Close

/-- What is asked for: a plain descriptor, a slot the kernel allocates, or a given slot. -/
inductive SlotRequest where
  | plain
  | allocate
  | slot (target : UInt32)
  deriving DecidableEq

/-- What the kernel decodes from an entry that makes a file. -/
def slotRequest (sqe : Sqe) : SlotRequest :=
  if sqe.fileIndex = 0 then .plain
  else if sqe.fileIndex = 0xffffffff then .allocate
  else .slot (sqe.fileIndex - 1)

/-- How a request is made with the functions of `DestinationSlot`. -/
inductive SlotRequest.Made : SlotRequest → Option DestinationSlot → Prop
  | plain : Made .plain none
  | allocate : Made .allocate (some .autoTarget)
  | slot {target dest} (h : DestinationSlot.tryFromSlotTarget target = some (.ok dest)) :
      Made (.slot target) (some dest)

/-- The destination of an operation that takes one. -/
def Op.dest : Op → Option (Option DestinationSlot)
  | .accept op => some op.fileIndex
  | .openAt op => some op.fileIndex
  | .openAt2 op => some op.fileIndex
  | .socket op => some op.fileIndex
  | .pipe op => some op.fileIndex
  | .msgRingSendFd op => some (some op.destSlotIndex)
  | _ => none

/-- What is stored for a destination. -/
def destWord : Option DestinationSlot → UInt32
  | none => 0
  | some dest => dest.kernelIndexArg

theorem setFileIndex_fileIndex {sqe : Sqe} (hzero : sqe.fileIndex = 0)
    (dest : Option DestinationSlot) : (setFileIndex sqe dest).fileIndex = destWord dest := by
  cases dest with
  | none => exact hzero
  | some dest => rfl

/-- No other argument of an operation overwrites its destination. -/
theorem Op.build_fileIndex {op : Op} {dest : Option DestinationSlot} (h : op.dest = some dest) :
    op.build.sqe.fileIndex = destWord dest := by
  cases op
  case accept op =>
    cases h
    refine setFileIndex_fileIndex ?_ op.fileIndex
    exact sqeForFile_fileIndex .accept op.fd
  case openAt op | openAt2 op | socket op | pipe op =>
    cases h
    exact setFileIndex_fileIndex rfl op.fileIndex
  case msgRingSendFd op =>
    cases h
    rfl
  all_goals cases h

/-- A target is refused above the range, and within it becomes the slot after it. -/
theorem tryFromSlotTarget_eq (target : UInt32) :
    (target > 0xfffffffd ∧ DestinationSlot.tryFromSlotTarget target = some (.error target)) ∨
      ¬ target > 0xfffffffd ∧ target + 1 ≠ 0 ∧ target + 1 ≠ 0xffffffff ∧
        ∃ dest, DestinationSlot.tryFromSlotTarget target = some (.ok dest) ∧
          dest.dest = target + 1 := by
  have hmax : DestinationSlot.maxIndex = 0xfffffffd := by decide
  by_cases habove : target > 0xfffffffd
  · left
    refine ⟨habove, if_pos ?_⟩
    rwa [hmax]
  · right
    have hle : target.toNat ≤ 4294967293 := by
      rw [gt_iff_lt, UInt32.lt_iff_toNat_lt] at habove
      exact Nat.le_of_not_lt habove
    have hnext : (target + 1).toNat = target.toNat + 1 := by
      rw [UInt32.toNat_add, UInt32.toNat_one]
      omega
    have hsat : saturatingAdd target 1 = target + 1 := if_pos (by
      change target.toNat + 1 < 4294967296
      omega)
    have hzero : target + 1 ≠ 0 := by
      rw [Ne, ← UInt32.toNat_inj, hnext]
      exact Nat.succ_ne_zero _
    have halloc : target + 1 ≠ 0xffffffff := by
      rw [Ne, ← UInt32.toNat_inj, hnext]
      change ¬ target.toNat + 1 = 4294967295
      omega
    have hassert : 0 < target + 1 ∧ target + 1 < DestinationSlot.autoTarget.dest := by
      rw [UInt32.lt_iff_toNat_lt, UInt32.lt_iff_toNat_lt, hnext]
      change 0 < target.toNat + 1 ∧ target.toNat + 1 < 4294967295
      omega
    refine ⟨habove, hzero, halloc, ⟨target + 1, hzero⟩, ?_, rfl⟩
    simp only [DestinationSlot.tryFromSlotTarget, hmax, if_neg habove, hsat, if_pos hassert,
      dif_pos hzero]

/-- A destination that was made is stored as what the kernel decodes to the request. -/
theorem SlotRequest.Made.decoded {sqe : Sqe} {request : SlotRequest}
    {dest : Option DestinationSlot} (h : request.Made dest)
    (hword : sqe.fileIndex = destWord dest) : slotRequest sqe = request := by
  rw [slotRequest, hword]
  cases h with
  | plain => rfl
  | allocate => rfl
  | @slot target dest h =>
      rcases tryFromSlotTarget_eq target with ⟨-, herr⟩ | ⟨-, hzero, halloc, dest', hok, hdest⟩
      · rw [herr] at h
        cases h
      · rw [hok] at h
        cases h
        have hback : target + 1 - 1 = target := UInt32.add_sub_cancel target 1
        change (if dest.dest = 0 then SlotRequest.plain
          else if dest.dest = 0xffffffff then .allocate else .slot (dest.dest - 1)) = _
        rw [hdest, if_neg hzero, if_neg halloc, hback]

/-- Every target is refused or accepted without a failed assertion, the refused ones being the
last two; and from every operation that takes a destination, with any other arguments, the
kernel decodes the request it was made for, so that requests are told apart by their entries. -/
theorem destination_survives {op : Op} {dest : Option DestinationSlot} (hop : op.dest = some dest)
    {request : SlotRequest} (hmade : request.Made dest) :
    (∀ target, DestinationSlot.tryFromSlotTarget target ≠ none ∧
        (DestinationSlot.tryFromSlotTarget target = some (.error target) ↔
          target > 0xfffffffd) ∧
        ((∃ dest, DestinationSlot.tryFromSlotTarget target = some (.ok dest)) ↔
          ¬ target > 0xfffffffd)) ∧
      slotRequest op.build.sqe = request ∧
      ∀ (op' : Op) (dest' : Option DestinationSlot) (request' : SlotRequest),
        op'.dest = some dest' → request'.Made dest' → request' ≠ request →
          op'.build.sqe ≠ op.build.sqe := by
  have hdecoded := hmade.decoded (Op.build_fileIndex hop)
  refine ⟨?_, hdecoded, ?_⟩
  · intro target
    rcases tryFromSlotTarget_eq target with ⟨habove, herr⟩ | ⟨habove, -, -, dest, hok, -⟩
    · rw [herr]
      refine ⟨nofun, iff_of_true rfl habove, iff_of_false ?_ (not_not_intro habove)⟩
      rintro ⟨dest, hdest⟩
      cases hdest
    · rw [hok]
      exact ⟨nofun, iff_of_false nofun habove, iff_of_true ⟨dest, rfl⟩ habove⟩
  · intro op' dest' request' hop' hmade' hne heq
    have hdecoded' := hmade'.decoded (Op.build_fileIndex hop')
    rw [heq, hdecoded] at hdecoded'
    exact hne hdecoded'.symm

/-- The last target that is accepted, in an entry whose other arguments are not zero. -/
theorem destination_survives_last :
    ∃ dest, DestinationSlot.tryFromSlotTarget 4294967293 = some (.ok dest) ∧
      slotRequest (Op.build (.accept
        { fd := .fixed 3, addr := 1, addrlen := 2, fileIndex := some dest, flags := 4 })).sqe =
          .slot 4294967293 := by
  refine ⟨⟨4294967294, by decide⟩, rfl, ?_⟩
  exact (destination_survives rfl (.slot rfl)).2.1

end IoUring.Opcode
