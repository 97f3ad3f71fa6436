import IoUring.Opcode.FileTarget

/-!
# The two files of `Splice` and `Tee`

The output file lies in `fd` and the input file in `splice_fd_in`. Which of the
two is an index of a registered file is told by one bit of `flags` for the
output and by one bit of `splice_flags` for the input.
-/

namespace IoUring.Opcode

open Squeue IoUring.Types

/-- The input file that the kernel decodes from an entry. -/
def spliceIn (sqe : Sqe) : Target :=
  if sqe.opFlags &&& Sys.spliceFFdInFixed ≠ 0 then .fixed sqe.fileIndex
  else .fd sqe.fileIndex.toInt32

/-- The flags the kernel passes on to `splice(2)`. -/
def spliceFlags (sqe : Sqe) : UInt32 := sqe.opFlags &&& ~~~Sys.spliceFFdInFixed

/-- An entry whose two words are those of an input file keeps the file and the user's flags. -/
theorem splice_decoded {sqe : Sqe} {flags : UInt32} {file : Target}
    (hflags : flags &&& Sys.spliceFFdInFixed = 0)
    (hwords : (sqe.fileIndex, sqe.opFlags) = spliceFdIn flags file) :
    spliceIn sqe = file ∧ spliceFlags sqe = flags := by
  obtain ⟨hindex, hop⟩ := Prod.mk.inj hwords
  cases file with
  | fd fd =>
      have hop : sqe.opFlags = flags := hop
      constructor
      · rw [spliceIn, hop, hindex]
        exact if_neg (fun hne => hne hflags)
      · rw [spliceFlags, hop, Foundation.and_not_of_and_eq_zero₃₂ hflags]
  | fixed idx =>
      have hop : sqe.opFlags = flags ||| Sys.spliceFFdInFixed := hop
      constructor
      · rw [spliceIn, hop, hindex, Foundation.or_and_self₃₂]
        exact if_pos (show Sys.spliceFFdInFixed ≠ 0 by decide)
      · rw [spliceFlags, hop, Foundation.or_and_not₃₂ hflags]

/-- Whatever the two targets are, each file is decoded as it was given, with the length, the
offsets and the flags of the user. -/
theorem splice_tee_files :
    (∀ op : Splice, op.flags &&& Sys.spliceFFdInFixed = 0 →
      let sqe := op.build.sqe
      sqe.file = op.fdOut ∧ spliceIn sqe = op.fdIn ∧ spliceFlags sqe = op.flags ∧
        sqe.len = op.len ∧ sqe.off.toInt64 = op.offOut ∧ sqe.addr.toInt64 = op.offIn) ∧
      ∀ op : Tee, op.flags &&& Sys.spliceFFdInFixed = 0 →
        let sqe := op.build.sqe
        sqe.file = op.fdOut ∧ spliceIn sqe = op.fdIn ∧ spliceFlags sqe = op.flags ∧
          sqe.len = op.len := by
  constructor
  · intro op hflags
    have haddresses : Addresses op.build.sqe op.fdOut :=
      Op.build_addresses (show (Op.splice op).file = some op.fdOut from rfl) nofun
    have hout := haddresses.file_eq
    have hin : spliceIn op.build.sqe = op.fdIn ∧ spliceFlags op.build.sqe = op.flags :=
      splice_decoded hflags rfl
    exact ⟨hout, hin.1, hin.2, rfl, rfl, rfl⟩
  · intro op hflags
    have haddresses : Addresses op.build.sqe op.fdOut :=
      Op.build_addresses (show (Op.tee op).file = some op.fdOut from rfl) nofun
    have hout := haddresses.file_eq
    have hin : spliceIn op.build.sqe = op.fdIn ∧ spliceFlags op.build.sqe = op.flags :=
      splice_decoded hflags rfl
    exact ⟨hout, hin.1, hin.2, rfl⟩

/-- One file of each kind, from a position that is not given. -/
theorem splice_tee_files_mixed :
    let splice := Splice.build
      { fdIn := .fixed 7, offIn := -1, fdOut := .fd 5, offOut := 9, len := 3, flags := 1 }
    let tee := Tee.build { fdIn := .fd 5, fdOut := .fixed 7, len := 3, flags := 2 }
    (splice.sqe.file = .fd 5 ∧ spliceIn splice.sqe = .fixed 7 ∧ spliceFlags splice.sqe = 1 ∧
        splice.sqe.len = 3 ∧ splice.sqe.off.toInt64 = 9 ∧ splice.sqe.addr.toInt64 = -1) ∧
      tee.sqe.file = .fixed 7 ∧ spliceIn tee.sqe = .fd 5 ∧ spliceFlags tee.sqe = 2 ∧
        tee.sqe.len = 3 := by
  constructor
  · exact splice_tee_files.1 _ (show (1 : UInt32) &&& Sys.spliceFFdInFixed = 0 by decide)
  · exact splice_tee_files.2 _ (show (2 : UInt32) &&& Sys.spliceFFdInFixed = 0 by decide)

end IoUring.Opcode
