import IoUring.Foundation.LastWrite
import IoUring.Opcode.RoundTrip
import IoUring.Opcode.Setters

/-!
# Marks on a request

The setters that come after a builder mark its entry with user data, a
personality and flags. Marks that leave alone the two bits that builders set
change nothing of the request, and nothing of a mark gets lost.
-/

namespace IoUring.Opcode

open Foundation Squeue IoUring.Types

/-- The two bits that builders set by themselves. -/
def builderFlags : UInt8 := Flags.fixedFile ||| Flags.bufferSelect

/-- A setter that only marks: it does not clear the flags and passes none of the builders'. -/
def marks (setter : Setter) : Prop :=
  setter ≠ .clearFlags ∧ passed setter &&& builderFlags = 0

def givenUserData : Setter → Option UInt64
  | .userData userData | .setUserData userData => some userData
  | .flags _ | .clearFlags | .personality _ => none

def givenPersonality : Setter → Option UInt16
  | .personality personality => some personality
  | .flags _ | .clearFlags | .userData _ | .setUserData _ => none

/-- The user data, the personality and the flags that a chain of setters leaves behind. -/
structure Marks where
  userData : UInt64
  personality : UInt16
  flags : UInt8
  deriving DecidableEq

def Marks.of (setters : List Setter) : Marks where
  userData := (lastGiven givenUserData setters).getD 0
  personality := (lastGiven givenPersonality setters).getD 0
  flags := allPassed setters

/-! ## A request is read without its marks -/

section Unread

variable {sqe : Sqe} {flags : UInt8} {userData : UInt64} {personality : UInt16}

theorem file_congr (h : flags &&& builderFlags = sqe.flags &&& builderFlags) :
    Sqe.file { sqe with flags, userData, personality } = sqe.file := by
  have hbit : flags &&& Flags.fixedFile = sqe.flags &&& Flags.fixedFile := by
    have hmask : builderFlags &&& Flags.fixedFile = Flags.fixedFile := by decide
    rw [← hmask, ← UInt8.and_assoc, h, UInt8.and_assoc]
  rw [Sqe.file, hbit, Sqe.file]

theorem selects_congr (h : flags &&& builderFlags = sqe.flags &&& builderFlags) :
    selects { sqe with flags, userData, personality } = selects sqe := by
  have hbit : flags &&& Flags.bufferSelect = sqe.flags &&& Flags.bufferSelect := by
    have hmask : builderFlags &&& Flags.bufferSelect = Flags.bufferSelect := by decide
    rw [← hmask, ← UInt8.and_assoc, h, UInt8.and_assoc]
  rw [selects, hbit, selects]

/-- Only two bits of the flags, and neither the user data nor the personality, are read. -/
theorem requestOf_congr (h : flags &&& builderFlags = sqe.flags &&& builderFlags)
    (op : Sys.IoringOp) :
    requestOf { sqe with flags, userData, personality } op = requestOf sqe op := by
  cases op <;>
    simp only [requestOf, recvmsgOf, recvOf, sendOf, acceptOf, timeoutRemoveOf, msgRingOf,
      uringCmdOf, closeTarget, spliceIn, file_congr h, selects_congr h]

theorem decode_entry_congr (h : flags &&& builderFlags = sqe.flags &&& builderFlags) :
    decode (.entry ⟨{ sqe with flags, userData, personality }⟩) = decode (.entry ⟨sqe⟩) :=
  congrArg (Option.bind (operation sqe.opcode)) (funext fun op => requestOf_congr h op)

theorem decode_entry128_congr (h : flags &&& builderFlags = sqe.flags &&& builderFlags)
    (rest : Vector UInt8 64) :
    decode (.entry128 ⟨⟨{ sqe with flags, userData, personality }⟩, rest⟩) =
      decode (.entry128 ⟨⟨sqe⟩, rest⟩) := by
  simp only [decode, file_congr h]

end Unread

theorem decode_apply {setter : Setter} (h : marks setter) (built : Built) :
    decode (built.apply setter) = decode built := by
  obtain ⟨hkept, hpassed⟩ := h
  have hadded (flags : UInt8) : (flags ||| passed setter) &&& builderFlags =
      flags &&& builderFlags := by
    rw [and_or_distrib_right₈, hpassed, UInt8.or_zero]
  cases setter with
  | clearFlags => exact absurd rfl hkept
  | flags passed =>
      cases built with
      | entry e => exact decode_entry_congr (hadded e.sqe.flags)
      | entry128 e => exact decode_entry128_congr (hadded e.entry.sqe.flags) e.rest
  | userData | setUserData | personality =>
      cases built with
      | entry e => exact @decode_entry_congr e.sqe e.sqe.flags _ _ rfl
      | entry128 e => exact @decode_entry128_congr e.entry.sqe e.entry.sqe.flags _ _ rfl e.rest

theorem decode_applyAll {setters : List Setter} (h : ∀ setter ∈ setters, marks setter)
    (built : Built) : decode (built.applyAll setters) = decode built := by
  induction setters generalizing built with
  | nil => rfl
  | cons setter rest ih =>
      obtain ⟨hfirst, hrest⟩ := List.forall_mem_cons.mp h
      exact (ih hrest (built.apply setter)).trans (decode_apply hfirst built)

/-! ## Marks are read back -/

namespace Marks

def empty : Marks := ⟨0, 0, 0⟩

def apply (m : Marks) : Setter → Marks
  | .flags flags => { m with flags := m.flags ||| flags }
  | .clearFlags => { m with flags := 0 }
  | .userData userData | .setUserData userData => { m with userData }
  | .personality personality => { m with personality }

/-- Of the user data and of the personality the last one counts, of the flags all do. -/
theorem foldl_apply {setters : List Setter} (h : .clearFlags ∉ setters) :
    setters.foldl apply empty = .of setters := by
  have hflags (m : Marks) : (setters.foldl apply m).flags = m.flags ||| allPassed setters := by
    induction setters generalizing m with
    | nil => exact UInt8.or_zero.symm
    | cons setter rest ih =>
        obtain ⟨hfirst, hrest⟩ := not_or.mp (mt List.mem_cons.mpr h)
        rw [List.foldl_cons, ih hrest, allPassed, ← UInt8.or_assoc]
        congr 1
        cases setter with
        | clearFlags => exact absurd rfl hfirst
        | flags => rfl
        | userData | setUserData | personality => exact UInt8.or_zero.symm
  have huserData := @read_foldl _ _ _ apply Marks.userData givenUserData
    (by intro m setter; cases setter <;> rfl) empty setters
  have hpersonality := @read_foldl _ _ _ apply Marks.personality givenPersonality
    (by intro m setter; cases setter <;> rfl) empty setters
  have hflags := (hflags empty).trans UInt8.zero_or
  exact Marks.mk.injEq .. |>.mpr ⟨huserData, hpersonality, hflags⟩

end Marks

/-- An entry with marks on it. -/
def markSqe (sqe : Sqe) (m : Marks) : Sqe :=
  { sqe with
    flags := sqe.flags ||| m.flags
    userData := m.userData
    personality := m.personality }

def mark (m : Marks) : Built → Built
  | .entry e => .entry ⟨markSqe e.sqe m⟩
  | .entry128 e => .entry128 ⟨⟨markSqe e.entry.sqe m⟩, e.rest⟩

theorem mark_apply {setter : Setter} (h : setter ≠ .clearFlags) (m : Marks) (built : Built) :
    (mark m built).apply setter = mark (m.apply setter) built := by
  have hassoc (flags passed : UInt8) :
      flags ||| m.flags ||| passed = flags ||| (m.flags ||| passed) := UInt8.or_assoc ..
  cases setter with
  | clearFlags => exact absurd rfl h
  | flags passed =>
      cases built <;>
        simp only [mark, markSqe, Built.apply, Entry.flags, Entry128.flags, Marks.apply, hassoc]
  | userData | setUserData | personality => cases built <;> rfl

theorem mark_applyAll {setters : List Setter} (h : .clearFlags ∉ setters) (m : Marks)
    (built : Built) :
    (mark m built).applyAll setters = mark (setters.foldl Marks.apply m) built := by
  induction setters generalizing m with
  | nil => rfl
  | cons setter rest ih =>
      obtain ⟨hfirst, hrest⟩ := not_or.mp (mt List.mem_cons.mpr h)
      calc
        ((mark m built).apply setter).applyAll rest
            = (mark (m.apply setter) built).applyAll rest := by rw [mark_apply (Ne.symm hfirst)]
        _ = mark (rest.foldl Marks.apply (m.apply setter)) built := ih hrest _

/-- No user data, no personality and no flags but those of builders. -/
def Unmarked (sqe : Sqe) : Prop :=
  sqe.userData = 0 ∧ sqe.personality = 0 ∧ sqe.flags &&& ~~~builderFlags = 0

section Unmarked

variable (op : Sys.IoringOp) (file : Target)

theorem unmarked_sqeForFile : Unmarked (sqeForFile op file) := by
  rw [sqeForFile_eq]
  refine ⟨rfl, rfl, ?_⟩
  cases file with
  | fd => exact UInt8.zero_and
  | fixed => exact show Flags.fixedFile &&& ~~~builderFlags = 0 by decide

theorem unmarked_select :
    Unmarked { sqeForFile op file with
      flags := (sqeForFile op file).flags ||| Flags.bufferSelect } := by
  obtain ⟨huserData, hpersonality, hflags⟩ := unmarked_sqeForFile op file
  refine ⟨huserData, hpersonality, ?_⟩
  change ((sqeForFile op file).flags ||| Flags.bufferSelect) &&& ~~~builderFlags = 0
  rw [and_or_distrib_right₈, hflags]
  decide

theorem unmarked_setFileIndex {sqe : Sqe} (h : Unmarked sqe) (dest : Option DestinationSlot) :
    Unmarked (setFileIndex sqe dest) := by
  cases dest <;> exact h

theorem unmarked_setCmdOptions {sqe : Sqe} (h : Unmarked sqe) (bufIndex : Option UInt16)
    (addr : Option UInt64) : Unmarked (setCmdOptions sqe bufIndex addr) := by
  cases bufIndex <;> cases addr <;> exact h

end Unmarked

theorem unmarked_build (op : Op) : Unmarked op.build.sqe := by
  cases op with
  | readMulti op =>
    obtain ⟨huserData, hpersonality, -⟩ := unmarked_sqeForFile .readMultishot op.fd
    exact ⟨huserData, hpersonality, show Flags.bufferSelect &&& ~~~builderFlags = 0 by decide⟩
  | sendZc op =>
    obtain ⟨fd, buf, len, bufIndex, destAddr, destAddrLen, flags, zcFlags⟩ := op
    cases bufIndex <;> exact unmarked_sqeForFile .sendZc fd
  | msgRingData op =>
    obtain ⟨ringFd, result, userData, userFlags, opcodeFlags⟩ := op
    cases userFlags <;> exact ⟨rfl, rfl, UInt8.zero_and⟩
  | accept op =>
    apply unmarked_setFileIndex
    exact unmarked_sqeForFile ..
  | uringCmd16 op | uringCmd80 op =>
    apply unmarked_setCmdOptions
    exact unmarked_sqeForFile ..
  | openAt op | openAt2 op | socket op | pipe op =>
    apply unmarked_setFileIndex
    exact ⟨rfl, rfl, UInt8.zero_and⟩
  | close op =>
    obtain ⟨target⟩ := op
    cases target <;> exact ⟨rfl, rfl, UInt8.zero_and⟩
  | recvMsgMulti op | recvMulti op | sendBundle op | recvBundle op | recvMultiBundle op =>
      exact unmarked_select ..
  | nop | pollRemove | timeout | timeoutRemove | timeoutUpdate | asyncCancel | linkTimeout
  | filesUpdate | statx | madvise | provideBuffers | removeBuffers | renameAt | unlinkAt | mkDirAt
  | symlinkAt | linkAt | getXattr | setXattr | asyncCancel2 | msgRingSendFd | futexWait | futexWake
  | futexWaitV | waitId => exact ⟨rfl, rfl, UInt8.zero_and⟩
  | fixedFdInstall op =>
    exact ⟨rfl, rfl, show Flags.fixedFile &&& ~~~builderFlags = 0 by decide⟩
  | _ => exact unmarked_sqeForFile ..

theorem mark_empty (op : Op) : mark .empty op.build = op.build := by
  obtain ⟨huserData, hpersonality, -⟩ := unmarked_build op
  have hmark {sqe : Sqe} (huserData : sqe.userData = 0) (hpersonality : sqe.personality = 0) :
      markSqe sqe .empty = sqe := by
    have hflags : sqe.flags ||| 0 = sqe.flags := UInt8.or_zero
    simp only [markSqe, Marks.empty, hflags, ← huserData, ← hpersonality]
  cases hbuilt : op.build with
  | entry e =>
      rw [hbuilt] at huserData hpersonality
      exact congrArg (fun sqe => Built.entry ⟨sqe⟩) (hmark huserData hpersonality)
  | entry128 e =>
      rw [hbuilt] at huserData hpersonality
      exact congrArg (fun sqe => Built.entry128 ⟨⟨sqe⟩, e.rest⟩) (hmark huserData hpersonality)

/-- Two marks on the entry of a builder differ. -/
theorem mark_injective {built : Built} (h : Unmarked built.sqe) {m m' : Marks}
    (hm : m.flags &&& builderFlags = 0) (hm' : m'.flags &&& builderFlags = 0)
    (heq : mark m built = mark m' built) : m = m' := by
  have hread (m : Marks) (hm : m.flags &&& builderFlags = 0) :
      m = ⟨(mark m built).sqe.userData, (mark m built).sqe.personality,
        (mark m built).sqe.flags &&& ~~~builderFlags⟩ := by
    have hflags : (built.sqe.flags ||| m.flags) &&& ~~~builderFlags = m.flags := by
      rw [and_or_distrib_right₈, h.2.2, UInt8.zero_or, and_not_of_and_eq_zero₈ hm]
    cases built with
    | entry e => exact congrArg (Marks.mk m.userData m.personality) hflags.symm
    | entry128 e => exact congrArg (Marks.mk m.userData m.personality) hflags.symm
  rw [hread m hm, heq, ← hread m' hm']

theorem allPassed_builderFlags {setters : List Setter} (h : ∀ setter ∈ setters, marks setter) :
    allPassed setters &&& builderFlags = 0 := by
  induction setters with
  | nil => exact UInt8.zero_and
  | cons setter rest ih =>
      obtain ⟨hfirst, hrest⟩ := List.forall_mem_cons.mp h
      rw [allPassed, and_or_distrib_right₈, hfirst.2, ih hrest, UInt8.or_zero]

/-- After chains of setters that only mark, two entries are the same bytes exactly if the requests
have one normal form and the chains leave the same marks: neither hides anything of the other. -/
theorem marked_bytes_iff {setters setters' : List Setter} (h : ∀ setter ∈ setters, marks setter)
    (h' : ∀ setter ∈ setters', marks setter) (op op' : Op) :
    (op.build.applyAll setters).bytes = (op'.build.applyAll setters').bytes ↔
      op.normal = op'.normal ∧ Marks.of setters = Marks.of setters' := by
  have hkept {setters : List Setter} (h : ∀ setter ∈ setters, marks setter) :
      .clearFlags ∉ setters := fun hmem => (h _ hmem).1 rfl
  have hmarked {setters : List Setter} (h : ∀ setter ∈ setters, marks setter) (op : Op) :
      op.build.applyAll setters = mark (.of setters) op.build := by
    rw [← Marks.foldl_apply (hkept h), ← mark_applyAll (hkept h), mark_empty]
  constructor
  · intro hbytes
    have hbuilt := Built.bytes_injective hbytes
    have hdecode := congrArg decode hbuilt
    rw [decode_applyAll h, decode_applyAll h', decode_build, decode_build] at hdecode
    have hnormal := Option.some.inj hdecode
    refine ⟨hnormal, ?_⟩
    have hsame : op'.build = op.build := by rw [← build_normal op, hnormal, build_normal]
    rw [hmarked h, hmarked h', hsame] at hbuilt
    exact mark_injective (unmarked_build op) (allPassed_builderFlags h)
      (allPassed_builderFlags h') hbuilt
  · rintro ⟨hnormal, hmarks⟩
    rw [hmarked h, hmarked h', hmarks, ← build_normal op, hnormal, build_normal]

/-- Closing the last index is closing descriptor zero, marked in one way or in another. -/
theorem marked_bytes_iff_close :
    ((Op.close ⟨.fixed 0xffffffff⟩).build.applyAll
        [.userData 1, .flags Flags.ioLink, .setUserData 7]).bytes =
      ((Op.close ⟨.fd 0⟩).build.applyAll [.flags Flags.ioLink, .userData 7]).bytes := by
  have hlink : marks (.flags Flags.ioLink) := ⟨by simp, by decide⟩
  have hdata (userData : UInt64) : marks (.userData userData) ∧ marks (.setUserData userData) :=
    ⟨⟨by simp, UInt8.zero_and⟩, ⟨by simp, UInt8.zero_and⟩⟩
  refine (marked_bytes_iff ?_ ?_ _ _).mpr ⟨rfl, rfl⟩
  · simp [hlink, hdata]
  · simp [hlink, hdata]

end IoUring.Opcode
