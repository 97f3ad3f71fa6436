import IoUring.Opcode.Control
import IoUring.Squeue.ByteImage

/-!
# The payload of a command

A 16-byte command ends the entry, and an 80-byte command goes on into the array
behind it. The other arguments lie in front of the command in either size.
-/

namespace IoUring.Opcode

open Foundation Squeue IoUring.Types

variable (fd : Target) (cmdOp : UInt32) (bufIndex : Option UInt16) (addr : Option UInt64)

/-- The other arguments of a command at their places in an entry's bytes. -/
structure HoldsArguments (bytes : List UInt8) : Prop where
  flags : slice bytes 1 2 = some [fdFlags fd]
  fd : slice bytes 4 8 = some (littleEndian 4 (fdWord fd).toUInt32.toNat)
  cmdOp : slice bytes 8 12 = some (littleEndian 4 cmdOp.toNat)
  addr : slice bytes 16 24 = some (littleEndian 8 (addr.getD 0).toNat)
  uringCmdFlags : slice bytes 28 32 =
    some (littleEndian 4 (if bufIndex.isSome then Sys.ioringUringCmdFixed else 0).toNat)
  bufIndex : slice bytes 40 42 = some (littleEndian 2 (bufIndex.getD 0).toNat)

/-- What both sizes of command build in front of the command. -/
def commandSqe (cmd : Vector UInt8 16) : Sqe :=
  { sqeZeroed with
    opcode := Sys.IoringOp.uringCmd.code
    flags := fdFlags fd
    fd := fdWord fd
    off := cmdOp.toUInt64
    addr := addr.getD 0
    opFlags := if bufIndex.isSome then Sys.ioringUringCmdFixed else 0
    bufIndex := bufIndex.getD 0
    cmd := cmd }

/-- Before any other write the operation is all there is of `off`. -/
theorem withLow_zero (v : UInt32) : withLow 0 v = v.toUInt64 := by
  rw [withLow, UInt64.zero_and, UInt64.zero_or]

/-- The writes that both sizes of command make to the entry. -/
theorem setCmdOptions_eq (cmd : Vector UInt8 16) :
    setCmdOptions
      { sqeForFile .uringCmd fd with off := withLow (sqeForFile .uringCmd fd).off cmdOp, cmd }
      bufIndex addr = commandSqe fd cmdOp bufIndex addr cmd := by
  have hoff : withLow sqeZeroed.off cmdOp = cmdOp.toUInt64 := withLow_zero cmdOp
  have hfixed : sqeZeroed.opFlags ||| Sys.ioringUringCmdFixed = Sys.ioringUringCmdFixed :=
    UInt32.zero_or
  rw [sqeForFile_eq]
  cases bufIndex with
  | none => cases addr <;> simp only [setCmdOptions, commandSqe, hoff] <;> rfl
  | some bufIndex => cases addr <;> simp only [setCmdOptions, commandSqe, hoff, hfixed] <;> rfl

theorem UringCmd16.build_eq (cmd : Vector UInt8 16) :
    UringCmd16.build { fd, cmdOp, bufIndex, cmd, addr } =
      ⟨commandSqe fd cmdOp bufIndex addr cmd⟩ :=
  congrArg Entry.mk (setCmdOptions_eq fd cmdOp bufIndex addr cmd)

theorem UringCmd80.build_eq (cmd : Vector UInt8 80) :
    UringCmd80.build { fd, cmdOp, bufIndex, cmd, addr } =
      ⟨⟨commandSqe fd cmdOp bufIndex addr (cmd.take 16)⟩, cmd.drop 16⟩ :=
  congrArg (fun sqe => Entry128.mk ⟨sqe⟩ (cmd.drop 16))
    (setCmdOptions_eq fd cmdOp bufIndex addr (cmd.take 16))

/-- The operation is the low half of `off` and nothing is in the high half. -/
theorem littleEndian_cmdOp :
    littleEndian 8 cmdOp.toUInt64.toNat = littleEndian 4 cmdOp.toNat ++ littleEndian 4 0 := by
  have hhigh : cmdOp.toUInt64.toNat / 256 ^ 4 = 0 := Nat.div_eq_of_lt cmdOp.toNat_lt
  rw [littleEndian_add 4 4, hhigh, UInt32.toNat_toUInt64]

/-- A command and the bytes behind the entry disturb none of the other arguments. -/
theorem commandSqe_holds (cmd : Vector UInt8 16) (rest : Vector UInt8 64) :
    HoldsArguments fd cmdOp bufIndex addr
      (Entry128.bytes ⟨⟨commandSqe fd cmdOp bufIndex addr cmd⟩, rest⟩) := by
  have hhead {lo hi : Nat} (h : hi ≤ 48) :
      slice (Entry128.bytes ⟨⟨commandSqe fd cmdOp bufIndex addr cmd⟩, rest⟩) lo hi =
        slice (commandSqe fd cmdOp bufIndex addr cmd).head lo hi :=
    Entry128.slice_bytes_head _ h
  constructor
  · rw [hhead (by decide)]
    rfl
  · rw [hhead (by decide)]
    rfl
  · have hoff : (commandSqe fd cmdOp bufIndex addr cmd).off = cmdOp.toUInt64 := rfl
    rw [hhead (by decide), Sqe.head, hoff, littleEndian_cmdOp]
    rfl
  · rw [hhead (by decide)]
    rfl
  · rw [hhead (by decide)]
    rfl
  · rw [hhead (by decide)]
    rfl

/-- The two parts of an 80-byte command together. -/
theorem build_command (cmd : Vector UInt8 80) :
    let entry := UringCmd80.build { fd, cmdOp, bufIndex, cmd, addr }
    entry.entry.sqe.cmd.toList ++ entry.rest.toList = cmd.toList := by
  rw [UringCmd80.build_eq]
  change (cmd.take 16).toList ++ (cmd.drop 16).toList = cmd.toList
  rw [Vector.toList_take, Vector.toList_drop, List.take_append_drop]

/-- A small command followed by zeros. -/
def padded (cmd : Vector UInt8 16) : Vector UInt8 80 :=
  cmd ++ (Vector.replicate 64 0 : Vector UInt8 64)

theorem take_padded (cmd : Vector UInt8 16) : (padded cmd).take 16 = cmd := by
  apply Vector.toList_inj.mp
  rw [Vector.toList_take, padded, Vector.toList_append, List.take_left' cmd.length_toList]

theorem drop_padded (cmd : Vector UInt8 16) : (padded cmd).drop 16 = Vector.replicate 64 0 := by
  apply Vector.toList_inj.mp
  rw [Vector.toList_drop, padded, Vector.toList_append, List.drop_left' cmd.length_toList]

/-- A small command that is converted is the big one with zeros behind it. -/
theorem ofEntry_build (cmd : Vector UInt8 16) :
    Entry128.ofEntry (UringCmd16.build { fd, cmdOp, bufIndex, cmd, addr }) =
      UringCmd80.build { fd, cmdOp, bufIndex, cmd := padded cmd, addr } := by
  have hsqe := congrArg (commandSqe fd cmdOp bufIndex addr) (take_padded cmd)
  rw [UringCmd16.build_eq, UringCmd80.build_eq, drop_padded, hsqe]
  rfl

/-- In a big entry the command is bytes 48 to 128 and another one differs in these only, the other
arguments being where they are without it; and a small command that is converted to a big
entry, before or after any calls of the setters, is in every byte the big command that
continues with zeros, after the same calls. -/
theorem command_payload :
    (∀ cmd : Vector UInt8 80,
      let entry := UringCmd80.build { fd, cmdOp, bufIndex, cmd, addr }
      slice entry.bytes 48 128 = some cmd.toList ∧
        HoldsArguments fd cmdOp bufIndex addr entry.bytes ∧
        ∀ cmd', (UringCmd80.build { fd, cmdOp, bufIndex, cmd := cmd', addr }).bytes =
          overwrite entry.bytes 48 cmd'.toList) ∧
      ∀ (cmd : Vector UInt8 16) (setters : List Setter),
        let small := UringCmd16.build { fd, cmdOp, bufIndex, cmd, addr }
        let big := UringCmd80.build { fd, cmdOp, bufIndex, cmd := padded cmd, addr }
        (Entry128.ofEntry small).bytes = big.bytes ∧
          (((Built.entry small).applyAll setters).widen).bytes =
            (((Built.entry128 big).applyAll setters).widen).bytes ∧
          (((Built.entry128 (.ofEntry small)).applyAll setters).widen).bytes =
            (((Built.entry128 big).applyAll setters).widen).bytes := by
  constructor
  · intro cmd
    refine ⟨?_, ?_, ?_⟩
    · rw [Entry128.slice_bytes]
      exact congrArg some (build_command fd cmdOp bufIndex addr cmd)
    · rw [UringCmd80.build_eq]
      exact commandSqe_holds fd cmdOp bufIndex addr _ _
    · intro cmd'
      have hend : (UringCmd80.build { fd, cmdOp, bufIndex, cmd, addr }).bytes.length =
          48 + cmd'.toList.length := by
        rw [Entry128.length_bytes, Vector.length_toList]
      rw [overwrite_to_end hend, Entry128.take_bytes, ← build_command fd cmdOp bufIndex addr cmd',
        UringCmd80.build_eq, UringCmd80.build_eq, Entry128.bytes, Sqe.bytes, List.append_assoc]
      rfl
  · intro cmd setters
    have hsame := ofEntry_build fd cmdOp bufIndex addr cmd
    refine ⟨congrArg Entry128.bytes hsame, ?_, ?_⟩
    · rw [Built.widen_applyAll, ← hsame]
      rfl
    · rw [hsame]

end IoUring.Opcode
