import IoUring.Foundation.FlagWord
import IoUring.Opcode.Op

/-!
# Every builder but one addresses the file it was given

The kernel takes `sqe.fd` for an index or for a raw descriptor depending on one
flag bit. Setters add flag bits, so the target survives as long as `build`
keeps what `assign_fd!` stored and no setter passes the bit itself.
-/

namespace IoUring.Opcode

open Squeue IoUring.Types

/-- `sqe` holds the descriptor and the flag bit that `assign_fd!` stores for a file. -/
structure Addresses (sqe : Sqe) (file : Target) : Prop where
  fd_eq : sqe.fd = fdWord file
  flags_eq : sqe.flags &&& Flags.fixedFile = fdFlags file

/-- What `assign_fd!` stores decodes to the file again. -/
theorem Addresses.file_eq {sqe : Sqe} {file : Target} (h : Addresses sqe file) :
    sqe.file = file := by
  rw [Sqe.file, h.fd_eq, h.flags_eq]
  cases file with
  | fd fd => exact if_neg (fun hbit => hbit rfl)
  | fixed idx => exact if_pos (show Flags.fixedFile ≠ 0 by decide)

namespace Op

/-- The flag bits that a builder sets by itself. -/
def ownFlags : Op → UInt8
  | .recvMsgMulti _ | .recvMulti _ | .readMulti _ | .sendBundle _ | .recvBundle _
  | .recvMultiBundle _ => Flags.bufferSelect
  | _ => 0

variable {op : Op} {file : Target}

theorem build_fd (h : op.file = some file) : op.build.sqe.fd = fdWord file := by
  cases op
  case sendZc op =>
    cases h
    exact op.build_fd
  case accept op =>
    cases h
    exact (setFileIndex_fd _ _).trans (sqeForFile_fd _ _)
  case uringCmd16 op =>
    cases h
    exact (setCmdOptions_fd _ _ _).trans (sqeForFile_fd _ _)
  case uringCmd80 op =>
    cases h
    exact (setCmdOptions_fd _ _ _).trans (sqeForFile_fd _ _)
  all_goals
    cases h
  all_goals exact sqeForFile_fd _ _

theorem build_flags (h : op.file = some file) (hadds : ∀ r, op ≠ .readMulti r) :
    op.build.sqe.flags = fdFlags file ||| op.ownFlags := by
  cases op
  case sendZc op =>
    cases h
    exact op.build_flags.trans UInt8.or_zero.symm
  case accept op =>
    cases h
    exact (setFileIndex_flags _ _).trans ((sqeForFile_flags _ _).trans UInt8.or_zero.symm)
  case uringCmd16 op =>
    cases h
    exact (setCmdOptions_flags _ _ _).trans ((sqeForFile_flags _ _).trans UInt8.or_zero.symm)
  case uringCmd80 op =>
    cases h
    exact (setCmdOptions_flags _ _ _).trans ((sqeForFile_flags _ _).trans UInt8.or_zero.symm)
  case readMulti r => exact absurd rfl (hadds r)
  case recvMsgMulti | recvMulti | sendBundle | recvBundle | recvMultiBundle =>
    cases h
    exact congrArg (· ||| Flags.bufferSelect) (sqeForFile_flags _ _)
  all_goals
    cases h
  all_goals exact (sqeForFile_flags _ _).trans UInt8.or_zero.symm

/-- A builder that adds to the flags keeps the file it was given. -/
theorem build_addresses (h : op.file = some file) (hadds : ∀ r, op ≠ .readMulti r) :
    Addresses op.build.sqe file where
  fd_eq := build_fd h
  flags_eq := by
    have hown : op.ownFlags &&& Flags.fixedFile = 0 := by
      unfold ownFlags
      split <;> decide
    rw [build_flags h hadds, Foundation.and_or_distrib_right₈, hown, UInt8.or_zero]
    cases file with
    | fd => exact UInt8.zero_and
    | fixed => exact UInt8.and_self

end Op

/-- `ReadMulti` assigns the flags: every target becomes a raw descriptor. -/
theorem ReadMulti.build_file (op : ReadMulti) : op.build.sqe.file = .fd (fdWord op.fd) := by
  have hbit : Flags.bufferSelect &&& Flags.fixedFile = 0 := by decide
  rw [← sqeForFile_fd .readMultishot op.fd]
  exact if_neg (fun hne => hne hbit)

/-- The setter neither passes `FIXED_FILE` nor clears it. -/
def keepsFile : Setter → Bool
  | .flags flags => flags &&& Flags.fixedFile == 0
  | .clearFlags => false
  | .userData _ | .setUserData _ | .personality _ => true

/-- The flags that a setter passes. -/
def passed : Setter → UInt8
  | .flags flags => flags
  | .clearFlags | .userData _ | .setUserData _ | .personality _ => 0

/-- One setter adds what it passes, unless it clears the byte. -/
theorem apply_flags (built : Built) {setter : Setter} (hkept : setter ≠ .clearFlags) :
    (built.apply setter).sqe.flags = built.sqe.flags ||| passed setter := by
  cases setter with
  | flags flags => cases built <;> rfl
  | clearFlags => exact absurd rfl hkept
  | userData | setUserData | personality =>
      rw [passed, UInt8.or_zero]
      cases built <;> rfl

theorem apply_fd (built : Built) (setter : Setter) :
    (built.apply setter).sqe.fd = built.sqe.fd := by
  cases built <;> cases setter <;> rfl

theorem apply_file {setter : Setter} (hkeeps : keepsFile setter = true) (built : Built) :
    (built.apply setter).sqe.file = built.sqe.file := by
  have hpassed : setter ≠ .clearFlags ∧ passed setter &&& Flags.fixedFile = 0 := by
    cases setter with
    | flags flags => exact ⟨nofun, eq_of_beq hkeeps⟩
    | clearFlags => cases hkeeps
    | userData | setUserData | personality => exact ⟨nofun, UInt8.zero_and⟩
  have hflags : (built.apply setter).sqe.flags &&& Flags.fixedFile =
      built.sqe.flags &&& Flags.fixedFile := by
    rw [apply_flags built hpassed.1, Foundation.and_or_distrib_right₈, hpassed.2, UInt8.or_zero]
  rw [Sqe.file, Sqe.file, apply_fd, hflags]

theorem applyAll_file {setters : List Setter} (hkeeps : ∀ s ∈ setters, keepsFile s = true)
    (built : Built) : (built.applyAll setters).sqe.file = built.sqe.file := by
  induction setters generalizing built with
  | nil => rfl
  | cons setter rest ih =>
      rw [List.forall_mem_cons] at hkeeps
      exact (ih hkeeps.2 (built.apply setter)).trans (apply_file hkeeps.1 built)

/-- After any chain of setters the kernel decodes the file that the builder was
given, unless the builder is `ReadMulti` and the file a registered one. -/
theorem built_file_eq_iff {op : Op} {file : Target} (h : op.file = some file)
    {setters : List Setter} (hkeeps : ∀ s ∈ setters, keepsFile s = true) :
    (op.build.applyAll setters).sqe.file = file ↔
      ¬ ∃ r idx, op = .readMulti r ∧ file = .fixed idx := by
  rw [applyAll_file hkeeps]
  by_cases hadds : ∀ r, op ≠ .readMulti r
  · apply iff_of_true (Op.build_addresses h hadds).file_eq
    rintro ⟨r, idx, hop, -⟩
    exact hadds r hop
  · obtain ⟨r, rfl⟩ : ∃ r, op = .readMulti r := by simpa using hadds
    obtain rfl : r.fd = file := Option.some.inj h
    have hfile : (Op.readMulti r).build.sqe.file = .fd (fdWord r.fd) := r.build_file
    rw [hfile]
    cases hfd : r.fd <;> simp [fdWord]

/-- A registered file under a chain of setters. -/
theorem built_file_eq_iff_recvMulti :
    ((Op.recvMulti { fd := .fixed 7, bufGroup := 1 }).build.applyAll
        [.flags Flags.ioLink, .userData 42, .personality 3]).sqe.file = .fixed 7 ↔
      ¬ ∃ r idx, Op.recvMulti { fd := .fixed 7, bufGroup := 1 } = .readMulti r ∧
        Target.fixed 7 = .fixed idx :=
  @built_file_eq_iff (.recvMulti { fd := .fixed 7, bufGroup := 1 }) _ rfl _ (by decide)

/-- A multishot read of registered file 7 goes to the raw descriptor 7. -/
theorem readMulti_loses_fixed :
    (Op.readMulti { fd := .fixed 7, len := 64, bufGroup := 1 }).file = some (.fixed 7) ∧
      (Op.readMulti { fd := .fixed 7, len := 64, bufGroup := 1 }).build.sqe.file = .fd 7 ∧
      Target.fd 7 ≠ .fixed 7 := by
  decide

end IoUring.Opcode
