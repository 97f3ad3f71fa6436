import IoUring.Foundation.FlagWord
import IoUring.Opcode.Command
import IoUring.Opcode.Decode
import IoUring.Opcode.Length

/-!
# Requests survive as entries

What is read back from the entry of a request is its normal form, which has the
same entry. So two requests have an entry in common exactly if they have one
normal form, for all builders at once.
-/

namespace IoUring.Opcode

open Foundation Squeue IoUring.Types

theorem operation_code (op : Sys.IoringOp) : operation op.code = some op := by
  cases op <;> rfl

/-! ## Words -/

section Words

variable {opcode : UInt8} {ioprio bufIndex personality : UInt16} {len opFlags fileIndex : UInt32}
  {off addr userData : UInt64} {cmd : Vector UInt8 16}

/-- The file is read back from its words. -/
theorem file_words (file : Target) :
    Sqe.file ⟨opcode, fdFlags file, ioprio, fdWord file, off, addr, len, opFlags, userData,
      bufIndex, personality, fileIndex, cmd⟩ = file := by
  cases file with
  | fd fd => exact if_neg (fun h => h UInt8.zero_and)
  | fixed idx => exact if_pos (show Flags.fixedFile &&& Flags.fixedFile ≠ 0 by decide)

theorem file_words_select (file : Target) :
    Sqe.file ⟨opcode, fdFlags file ||| Flags.bufferSelect, ioprio, fdWord file, off, addr, len,
      opFlags, userData, bufIndex, personality, fileIndex, cmd⟩ = file := by
  cases file with
  | fd fd =>
      exact if_neg (show ¬ (0 ||| Flags.bufferSelect) &&& Flags.fixedFile ≠ 0 by decide)
  | fixed idx =>
      exact if_pos (show (Flags.fixedFile ||| Flags.bufferSelect) &&& Flags.fixedFile ≠ 0
        by decide)

theorem selects_words (file : Target) :
    selects ⟨opcode, fdFlags file, ioprio, fdWord file, off, addr, len, opFlags, userData,
      bufIndex, personality, fileIndex, cmd⟩ = false := by
  cases file with
  | fd fd => exact bne_eq_false_iff_eq.mpr UInt8.zero_and
  | fixed idx => exact show (Flags.fixedFile &&& Flags.bufferSelect != 0) = false by decide

theorem selects_words_select (file : Target) :
    selects ⟨opcode, fdFlags file ||| Flags.bufferSelect, ioprio, fdWord file, off, addr, len,
      opFlags, userData, bufIndex, personality, fileIndex, cmd⟩ = true := by
  cases file with
  | fd fd => exact show ((0 ||| Flags.bufferSelect) &&& Flags.bufferSelect != 0) = true by decide
  | fixed idx =>
      exact show ((Flags.fixedFile ||| Flags.bufferSelect) &&& Flags.bufferSelect != 0) = true
        by decide

end Words

/-- The word of an optional slot. -/
def slotWord (dest : Option DestinationSlot) : UInt32 := (dest.map DestinationSlot.dest).getD 0

theorem setFileIndex_eq {sqe : Sqe} (h : sqe.fileIndex = 0) (dest : Option DestinationSlot) :
    setFileIndex sqe dest = { sqe with fileIndex := slotWord dest } := by
  cases dest with
  | none =>
      have hword : slotWord none = sqe.fileIndex := h.symm
      rw [hword]
      rfl
  | some dest => rfl

theorem slotOf_kernelIndexArg (dest : DestinationSlot) : slotOf dest.kernelIndexArg = some dest :=
  dif_pos dest.dest_ne

theorem slotOf_slotWord (dest : Option DestinationSlot) : slotOf (slotWord dest) = dest := by
  cases dest with
  | none => rfl
  | some dest => exact slotOf_kernelIndexArg dest

theorem wordOf_withWord (cmd : Vector UInt8 16) (v : UInt64) : wordOf (withWord cmd v) = v := by
  have hbytes : (withWord cmd v).toList.take 8 = littleEndian 8 v.toNat := by
    apply List.ext_getElem
    · simp
    · intro i hi hi'
      have hlt : i < 8 := by simpa using hi'
      have hshift : (8 * UInt64.ofNat i).toNat = 8 * i := by
        rw [UInt64.toNat_mul, UInt64.toNat_ofNat_of_lt' (show i < 2 ^ 64 by omega)]
        exact Nat.mod_eq_of_lt (show 8 * i < 2 ^ 64 by omega)
      simp only [withWord, List.getElem_take, Vector.getElem_toList, Vector.getElem_ofFn,
        if_pos hlt, getElem_littleEndian]
      apply UInt8.toNat_inj.mp
      rw [UInt64.toNat_toUInt8, UInt64.toNat_shiftRight, hshift, UInt8.toNat_ofNat',
        Nat.shiftRight_eq_div_pow, Nat.mod_eq_of_lt (show 8 * i < 64 by omega), Nat.pow_mul]
  rw [wordOf, hbytes, Packed.spelled_littleEndian_of_lt v.toNat_lt, UInt64.ofNat_toNat]

/-- Both halves of a word, written one after the other. -/
theorem toNat_withHigh (low high : UInt32) :
    (withHigh (withLow 0 low) high).toNat = 2 ^ 32 * high.toNat + low.toNat := by
  have hlow := low.toNat_lt
  have hhigh := high.toNat_lt
  have hkept : low.toNat &&& 0xffffffff = low.toNat := by
    rw [show 0xffffffff = 2 ^ 32 - 1 from rfl, Nat.and_two_pow_sub_one_eq_mod]
    exact Nat.mod_eq_of_lt hlow
  have hshift : high.toNat <<< 32 % 2 ^ 64 = 2 ^ 32 * high.toNat := by
    rw [Nat.shiftLeft_eq]
    omega
  rw [withLow_zero, withHigh, UInt64.toNat_or, UInt64.toNat_and, UInt64.toNat_shiftLeft]
  simp only [UInt32.toNat_toUInt64, UInt64.reduceToNat, hkept, Nat.reduceMod, hshift]
  rw [Nat.or_comm, Nat.two_pow_add_eq_or_of_lt hlow]

theorem toUInt32_withHigh (low high : UInt32) :
    (withHigh (withLow 0 low) high).toUInt32 = low := by
  have hlow := low.toNat_lt
  apply UInt32.toNat_inj.mp
  rw [UInt64.toNat_toUInt32, toNat_withHigh]
  omega

theorem withHigh_shiftRight (low high : UInt32) :
    (withHigh (withLow 0 low) high >>> 32).toUInt32 = high := by
  have hlow := low.toNat_lt
  have hhigh := high.toNat_lt
  apply UInt32.toNat_inj.mp
  rw [UInt64.toNat_toUInt32, UInt64.toNat_shiftRight, toNat_withHigh, Nat.shiftRight_eq_div_pow]
  change (2 ^ 32 * high.toNat + low.toNat) / 2 ^ 32 % 2 ^ 32 = high.toNat
  omega

theorem take_append_drop (cmd : Vector UInt8 80) :
    (show Vector UInt8 80 from cmd.take 16 ++ cmd.drop 16) = cmd := by
  apply Vector.toList_inj.mp
  exact (Vector.toList_append ..).trans (by
    rw [Vector.toList_take, Vector.toList_drop, List.take_append_drop])

/-! ## What is read back is the normal form -/

/-- The input file of a splice and its flags, read back from their words. -/
theorem spliceFdIn_read {sqe : Sqe} {flags : UInt32} {file : Target}
    (hwords : (sqe.fileIndex, sqe.opFlags) = spliceFdIn flags file) :
    (spliceIn sqe, sqe.opFlags) = normalFdIn flags file := by
  obtain ⟨hindex, hop⟩ := Prod.mk.inj hwords
  cases file with
  | fd fd =>
      have hop : sqe.opFlags = flags := hop
      have hindex : sqe.fileIndex = fd.toUInt32 := hindex
      rw [spliceIn, hop, hindex, Int32.toInt32_toUInt32, normalFdIn]
      split <;> rfl
  | fixed idx =>
      have hop : sqe.opFlags = flags ||| Sys.spliceFFdInFixed := hop
      have hindex : sqe.fileIndex = idx := hindex
      rw [spliceIn, hop, hindex, or_and_self₃₂, normalFdIn]
      rfl

theorem decode_splice (op : Splice) :
    decode (.entry op.build) = some (Op.splice op).normal := by
  have haddresses : Addresses op.build.sqe op.fdOut :=
    Op.build_addresses (show (Op.splice op).file = some op.fdOut from rfl) nofun
  have hfile := haddresses.file_eq
  have hin : (spliceIn op.build.sqe, op.build.sqe.opFlags) = normalFdIn op.flags op.fdIn :=
    spliceFdIn_read rfl
  have hop : operation op.build.sqe.opcode = some .splice := by
    simp [Splice.build, sqeForFile_eq, operation_code]
  rw [decode, hop, Op.normal, ← hin]
  simp only [Option.bind_some, requestOf, hfile]
  rfl

theorem decode_tee (op : Tee) : decode (.entry op.build) = some (Op.tee op).normal := by
  have haddresses : Addresses op.build.sqe op.fdOut :=
    Op.build_addresses (show (Op.tee op).file = some op.fdOut from rfl) nofun
  have hfile := haddresses.file_eq
  have hin : (spliceIn op.build.sqe, op.build.sqe.opFlags) = normalFdIn op.flags op.fdIn :=
    spliceFdIn_read rfl
  have hop : operation op.build.sqe.opcode = some .tee := by
    simp [Tee.build, sqeForFile_eq, operation_code]
  rw [decode, hop, Op.normal, ← hin]
  simp only [Option.bind_some, requestOf, hfile]
  rfl

theorem decode_sendZc (op : SendZc) :
    decode (.entry op.build) = some (Op.sendZc op).normal := by
  obtain ⟨fd, buf, len, bufIndex, destAddr, destAddrLen, flags, zcFlags⟩ := op
  have hbit : Sys.ioringRecvsendFixedBuf ≠ 0 := by decide
  cases bufIndex with
  | none =>
      simp [decode, SendZc.build, sqeForFile_eq, operation_code, requestOf, Op.normal, file_words,
        withLow16_toUInt16, sqeZeroed, sendZcBuffer]
  | some bufIndex =>
      simp [decode, SendZc.build, sqeForFile_eq, operation_code, requestOf, Op.normal, file_words,
        withLow16_toUInt16, sqeZeroed, sendZcBuffer, or_and_self₁₆, hbit]

theorem decode_msgRingData (op : MsgRingData) :
    decode (.entry op.build) = some (Op.msgRingData op).normal := by
  obtain ⟨ringFd, result, userData, userFlags, opcodeFlags⟩ := op
  have hbit : Sys.ioringMsgRingFlagsPass ≠ 0 := by decide
  cases userFlags with
  | none =>
      simp [decode, MsgRingData.build, sqeFor, operation_code, requestOf, msgRingOf, Op.normal,
        sqeZeroed]
  | some userFlags =>
      simp [decode, MsgRingData.build, sqeFor, operation_code, requestOf, msgRingOf, Op.normal,
        or_and_self₃₂, hbit]

theorem decode_setSockOpt (op : SetSockOpt) :
    decode (.entry op.build) = some (Op.setSockOpt op).normal := by
  by_cases hplain : plainCmd op.optlen op.flags
  · simp [decode, SetSockOpt.build, sqeForFile_eq, operation_code, requestOf, uringCmdOf, hplain,
      Op.normal, file_words, sqeZeroed, withLow_zero]
  · simp [decode, SetSockOpt.build, sqeForFile_eq, operation_code, requestOf, uringCmdOf, hplain,
      Op.normal, file_words, sqeZeroed, wordOf_withWord, toUInt32_withHigh, withHigh_shiftRight]

theorem decode_uringCmd16 (op : UringCmd16) :
    decode (.entry op.build) = some (Op.uringCmd16 op).normal := by
  obtain ⟨fd, cmdOp, bufIndex, cmd, addr⟩ := op
  have hbit : ¬ 0 = Sys.ioringUringCmdFixed := by decide
  cases bufIndex with
  | none | some =>
      simp [decode, UringCmd16.build_eq, commandSqe, operation_code, requestOf, uringCmdOf,
        plainCmd, cmdBuffer, Op.normal, sqeZeroed, file_words, hbit]

theorem decode_uringCmd80 (op : UringCmd80) :
    decode (.entry128 op.build) = some (Op.uringCmd80 op).normal := by
  obtain ⟨fd, cmdOp, bufIndex, cmd, addr⟩ := op
  have hbit : ¬ 0 = Sys.ioringUringCmdFixed := by decide
  have hcmd := take_append_drop cmd
  cases bufIndex with
  | none | some =>
      simpa [decode, UringCmd80.build_eq, commandSqe, cmdBuffer, Op.normal, sqeZeroed, file_words,
        hbit] using hcmd

theorem decode_close (op : Close) : decode (.entry op.build) = some (Op.close op).normal := by
  have hop : operation op.build.sqe.opcode = some .close := by
    obtain ⟨target⟩ := op
    cases target <;> simp [Close.build, sqeFor, operation_code]
  simp [decode, hop, requestOf, Op.normal, Close.closeTarget_build]

/-- A request is read back from its entry in its normal form. -/
theorem decode_build (op : Op) : decode op.build = some op.normal := by
  cases op with
  | splice op => exact decode_splice op
  | tee op => exact decode_tee op
  | sendZc op => exact decode_sendZc op
  | msgRingData op => exact decode_msgRingData op
  | setSockOpt op => exact decode_setSockOpt op
  | uringCmd16 op => exact decode_uringCmd16 op
  | uringCmd80 op => exact decode_uringCmd80 op
  | close op => exact decode_close op
  | pollAdd op =>
      obtain ⟨fd, flags, multi⟩ := op
      have hmulti : (Sys.ioringPollAddMulti != 0) = true := by decide
      cases multi <;>
        simp [Op.build, decode, PollAdd.build, sqeForFile_eq, operation_code, requestOf,
          Op.normal, file_words, sqeZeroed, hmulti]
  | acceptMulti op =>
      obtain ⟨fd, allocate, flags⟩ := op
      have halloc : (Sys.ioringFileIndexAlloc.toUInt32 != 0) = true := by decide
      cases allocate <;>
        simp [Op.build, decode, AcceptMulti.build, sqeForFile_eq, operation_code, requestOf,
          acceptOf, Op.normal, file_words, sqeZeroed, halloc]
  | accept op =>
      simp [Op.build, decode, Accept.build, sqeForFile_eq, operation_code, requestOf, acceptOf,
        Op.normal, file_words, setFileIndex_eq, slotOf_slotWord, sqeZeroed,
        Sys.ioringAcceptMultishot]
  | timeoutRemove op =>
      simp [Op.build, decode, TimeoutRemove.build, operation_code, requestOf, timeoutRemoveOf,
        Op.normal, sqeFor, sqeZeroed]
  | timeoutUpdate op =>
      have hbit : Sys.ioringTimeoutUpdate ≠ 0 := by decide
      simp [Op.build, decode, TimeoutUpdate.build, operation_code, requestOf, timeoutRemoveOf,
        Op.normal, sqeFor, or_and_self₃₂, hbit]
  | msgRingSendFd op =>
      have hcmd : ¬ Sys.ioringMsgSendFd = Sys.ioringMsgData := by decide
      simp [Op.build, decode, MsgRingSendFd.build, sqeFor, operation_code, requestOf, msgRingOf,
        Op.normal, wordOf_withWord, hcmd, slotOf_kernelIndexArg]
  | send op =>
      simp [Op.build, decode, Send.build, sqeForFile_eq, operation_code, requestOf, sendOf,
        Op.normal, file_words, selects_words, withLow16_toUInt16, sqeZeroed]
  | recvMultiBundle op =>
      have hmulti : Sys.ioringRecvMultishot ||| Sys.ioringRecvsendBundle ≠
        Sys.ioringRecvMultishot := by decide
      have hbundle : Sys.ioringRecvMultishot ||| Sys.ioringRecvsendBundle ≠
        Sys.ioringRecvsendBundle := by decide
      simp [Op.build, decode, RecvMultiBundle.build, sqeForFile_eq, operation_code, requestOf,
        recvOf, Op.normal, file_words_select, selects_words_select, hmulti, hbundle]
  | recvMsgMulti op | recvMulti op | recvBundle op | sendBundle op =>
      simp [Op.build, decode, RecvMsgMulti.build, RecvMulti.build, RecvBundle.build,
        SendBundle.build, sqeForFile_eq, operation_code, requestOf, recvmsgOf, recvOf, sendOf,
        Op.normal, file_words_select, selects_words_select, Sys.ioringRecvMultishot,
        Sys.ioringRecvsendBundle, sqeZeroed]
  -- the others have an opcode of their own; first those with a file
  | readv op | writev op | fsync op | readFixed op | writeFixed op | syncFileRange op
  | fallocate op | read op | write op | readvFixed op | writevFixed op | ftruncate op
  | fGetXattr op | fSetXattr op | fadvise op | readMulti op =>
      simp [Op.build, decode, Readv.build, Writev.build, Fsync.build, ReadFixed.build,
        WriteFixed.build, SyncFileRange.build, Fallocate.build, Read.build, Write.build,
        ReadvFixed.build, WritevFixed.build, Ftruncate.build, FGetXattr.build, FSetXattr.build,
        Fadvise.build, ReadMulti.build, sqeForFile_eq, operation_code, requestOf, Op.normal,
        file_words]
  | sendMsg op | connect op | shutdown op | sendMsgZc op | bind op | listen op | epollCtl op
  | epollWait op | recvMsg op | recv op | recvZc op =>
      simp [Op.build, decode, SendMsg.build, Connect.build, Shutdown.build, SendMsgZc.build,
        Bind.build, Listen.build, EpollCtl.build, EpollWait.build, RecvMsg.build, Recv.build,
        RecvZc.build, sqeForFile_eq, operation_code, requestOf, recvmsgOf, recvOf, Op.normal,
        file_words, selects_words]
  | openAt op | openAt2 op | socket op | pipe op =>
      simp [Op.build, decode, OpenAt.build, OpenAt2.build, Socket.build, Pipe.build,
        operation_code, requestOf, Op.normal, setFileIndex_eq, slotOf_slotWord, sqeFor, sqeZeroed]
  | getXattr op | setXattr op | futexWait op | futexWake op =>
      simp [Op.build, decode, GetXattr.build, SetXattr.build, FutexWait.build, FutexWake.build,
        operation_code, requestOf, Op.normal, sqeFor, wordOf_withWord]
  | nop op | pollRemove op | timeout op | linkTimeout op | asyncCancel op | asyncCancel2 op
  | filesUpdate op | statx op | madvise op | provideBuffers op | removeBuffers op | renameAt op
  | unlinkAt op | mkDirAt op | symlinkAt op | linkAt op | futexWaitV op | waitId op
  | fixedFdInstall op =>
      simp [Op.build, decode, Nop.build, PollRemove.build, Timeout.build, LinkTimeout.build,
        AsyncCancel.build, AsyncCancel2.build, FilesUpdate.build, Statx.build, Madvise.build,
        ProvideBuffers.build, RemoveBuffers.build, RenameAt.build, UnlinkAt.build, MkDirAt.build,
        SymlinkAt.build, LinkAt.build, FutexWaitV.build, WaitId.build, FixedFdInstall.build,
        operation_code, requestOf, Op.normal, sqeFor, sqeZeroed]

/-! ## The normal form has the same entry -/

/-- The read file and flags have the words of the file they were read from. -/
theorem spliceFdIn_normalFdIn (flags : UInt32) (file : Target) :
    spliceFdIn (normalFdIn flags file).2 (normalFdIn flags file).1 = spliceFdIn flags file := by
  cases file with
  | fd fd =>
      by_cases hbit : flags &&& Sys.spliceFFdInFixed ≠ 0
      · rw [normalFdIn, if_pos hbit]
        exact congrArg (Prod.mk fd.toUInt32) (or_of_and_ne_zero₃₂ (k := 31) rfl hbit)
      · rw [normalFdIn, if_neg hbit]
  | fixed idx =>
      change (idx, flags ||| Sys.spliceFFdInFixed ||| Sys.spliceFFdInFixed) = _
      rw [UInt32.or_assoc, UInt32.or_self]
      rfl

theorem build_normal_sendZc (op : SendZc) :
    (Op.sendZc op).normal.build = .entry op.build := by
  obtain ⟨fd, buf, len, bufIndex, destAddr, destAddrLen, flags, zcFlags⟩ := op
  cases bufIndex with
  | some bufIndex =>
      have hlen := UInt16.toUInt16_toUInt32 destAddrLen.toUInt16
      simp only [Op.normal, Op.build, SendZc.build, Option.isSome_some, Option.getD_some,
        Bool.true_or, if_pos, UInt16.or_assoc, UInt16.or_self, hlen]
  | none =>
      have hlen := UInt16.toUInt16_toUInt32 destAddrLen.toUInt16
      by_cases hbit : zcFlags &&& Sys.ioringRecvsendFixedBuf = 0
      · simp [-UInt32.toUInt32_toUInt16, Op.normal, Op.build, SendZc.build, hbit]
      · have hadded : zcFlags ||| Sys.ioringRecvsendFixedBuf = zcFlags :=
          or_of_and_ne_zero₁₆ (k := 2) rfl hbit
        simp [-UInt32.toUInt32_toUInt16, Op.normal, Op.build, SendZc.build, hbit, hadded,
          sqeForFile_eq, sqeZeroed]

theorem build_normal_msgRingData (op : MsgRingData) :
    (Op.msgRingData op).normal.build = .entry op.build := by
  obtain ⟨ringFd, result, userData, userFlags, opcodeFlags⟩ := op
  cases userFlags with
  | some userFlags => simp [Op.normal, Op.build, MsgRingData.build, UInt32.or_assoc]
  | none =>
      by_cases hbit : opcodeFlags &&& Sys.ioringMsgRingFlagsPass = 0
      · simp [Op.normal, Op.build, MsgRingData.build, hbit]
      · have hadded : opcodeFlags ||| Sys.ioringMsgRingFlagsPass = opcodeFlags :=
          or_of_and_ne_zero₃₂ (k := 1) rfl hbit
        simp [Op.normal, Op.build, MsgRingData.build, hbit, hadded, sqeFor, sqeZeroed]

theorem build_normal_setSockOpt (op : SetSockOpt) :
    (Op.setSockOpt op).normal.build = .entry op.build := by
  obtain ⟨fd, level, optname, optval, optlen, flags⟩ := op
  by_cases hplain : plainCmd optlen flags
  · have hbit : ¬ 0 = Sys.ioringUringCmdFixed := by decide
    obtain ⟨rfl, rfl | rfl⟩ := hplain
    all_goals
      simp [Op.normal, Op.build, UringCmd16.build_eq, commandSqe, SetSockOpt.build, plainCmd,
        cmdBuffer, sqeForFile_eq, sqeZeroed, withLow_zero, hbit]
  · simp [Op.normal, Op.build, hplain]

/-- The normal form has the same entry. -/
theorem build_normal (op : Op) : op.normal.build = op.build := by
  cases op with
  | splice op =>
      have hwords := spliceFdIn_normalFdIn op.flags op.fdIn
      simp [Op.normal, Op.build, Splice.build, hwords]
  | tee op =>
      have hwords := spliceFdIn_normalFdIn op.flags op.fdIn
      simp [Op.normal, Op.build, Tee.build, hwords]
  | sendZc op => exact build_normal_sendZc op
  | msgRingData op => exact build_normal_msgRingData op
  | recvMsgMulti op | recvZc op =>
      simp [Op.normal, Op.build, RecvMsgMulti.build, RecvZc.build, UInt16.or_assoc]
  | timeoutUpdate op =>
      simp [Op.normal, Op.build, TimeoutUpdate.build, UInt32.or_assoc]
  | asyncCancel op => rfl
  | asyncCancel2 op => rfl
  | close op =>
      by_cases hlast : op.fd = .fixed 0xffffffff
      · simp [Op.normal, Op.build, Close.build, hlast, sqeFor, sqeZeroed]
      · simp [Op.normal, hlast]
  | fadvise op | madvise op =>
      simp only [Op.normal, Op.build, Fadvise.build, Madvise.build, UInt64.toUInt64_toInt64,
        UInt32.toUInt32_toUInt64]
  | send op => simp only [Op.normal, Op.build, Send.build, UInt16.toUInt16_toUInt32]
  | readMulti op => simp [Op.normal, Op.build, ReadMulti.build, sqeForFile_eq, fdWord]
  | uringCmd16 op =>
      obtain ⟨fd, cmdOp, bufIndex, cmd, addr⟩ := op
      simp [Op.normal, Op.build, UringCmd16.build_eq, commandSqe]
  | uringCmd80 op =>
      obtain ⟨fd, cmdOp, bufIndex, cmd, addr⟩ := op
      simp [Op.normal, Op.build, UringCmd80.build_eq, commandSqe]
  | setSockOpt op => exact build_normal_setSockOpt op
  | _ => rfl

/-- Taking the normal form twice is taking it once. -/
theorem normal_normal (op : Op) : op.normal.normal = op.normal := by
  apply Option.some.inj
  rw [← decode_build op.normal, build_normal, decode_build]

/-- Two requests are copied into the queue as the same bytes exactly if they have one normal form,
whichever builders they were made with. -/
theorem same_bytes_iff (op op' : Op) :
    op.build.bytes = op'.build.bytes ↔ op.normal = op'.normal := by
  constructor
  · intro hbytes
    have hbuilt : op.build = op'.build := Built.bytes_injective hbytes
    apply Option.some.inj
    rw [← decode_build op, hbuilt, decode_build]
  · intro hnormal
    rw [← build_normal op, hnormal, build_normal]

end IoUring.Opcode
