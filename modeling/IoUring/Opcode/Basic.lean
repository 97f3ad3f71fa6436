import IoUring.Squeue.Entry

/-!
# The common part of the operation builders

The `opcode!` macro turns each operation into a structure with `new` for the
required arguments, one setter for each optional field, and `build`. Here the
structure's field defaults are the defaults that `new` fills in, and a value
of the structure is any chain of setters after `new`.
-/

namespace IoUring.Opcode

open Squeue IoUring.Types

/-- The macro `assign_fd!`. -/
def assignFd (sqe : Sqe) : Target → Sqe
  | .fd fd => { sqe with fd := fd }
  | .fixed idx => { sqe with fd := idx.toInt32, flags := sqe.flags ||| Flags.fixedFile }

/-- The opening lines of a `build` that takes no file: a zeroed entry with the
opcode and a value for `fd`. -/
def sqeFor (op : Sys.IoringOp) (fd : Int32) : Sqe :=
  { sqeZeroed with opcode := op.code, fd := fd }

/-- The opening lines of a `build` whose file is `impl sealed::UseFixed`. -/
def sqeForFile (op : Sys.IoringOp) (file : Target) : Sqe :=
  assignFd { sqeZeroed with opcode := op.code } file

/-- What `assign_fd!` stores in `fd`. -/
def fdWord : Target → Int32
  | .fd fd => fd
  | .fixed idx => idx.toInt32

/-- What `assign_fd!` adds to `flags`. -/
def fdFlags : Target → UInt8
  | .fd _ => 0
  | .fixed _ => Flags.fixedFile

/-- `assign_fd!` stores a descriptor and flag bits, and the rest is zero. -/
theorem sqeForFile_eq (op : Sys.IoringOp) (file : Target) :
    sqeForFile op file =
      { sqeZeroed with opcode := op.code, flags := fdFlags file, fd := fdWord file } := by
  cases file with
  | fd => rfl
  | fixed idx =>
      have hflags : sqeZeroed.flags ||| Flags.fixedFile = Flags.fixedFile := UInt8.zero_or
      simp only [sqeForFile, assignFd, fdFlags, fdWord, hflags]

@[simp] theorem sqeForFile_fd (op : Sys.IoringOp) (file : Target) :
    (sqeForFile op file).fd = fdWord file := by
  rw [sqeForFile_eq]

@[simp] theorem sqeForFile_flags (op : Sys.IoringOp) (file : Target) :
    (sqeForFile op file).flags = fdFlags file := by
  rw [sqeForFile_eq]

@[simp] theorem sqeForFile_ioprio (op : Sys.IoringOp) (file : Target) :
    (sqeForFile op file).ioprio = 0 := by
  rw [sqeForFile_eq]
  rfl

@[simp] theorem sqeForFile_addr (op : Sys.IoringOp) (file : Target) :
    (sqeForFile op file).addr = 0 := by
  rw [sqeForFile_eq]
  rfl

@[simp] theorem sqeForFile_len (op : Sys.IoringOp) (file : Target) :
    (sqeForFile op file).len = 0 := by
  rw [sqeForFile_eq]
  rfl

@[simp] theorem sqeForFile_fileIndex (op : Sys.IoringOp) (file : Target) :
    (sqeForFile op file).fileIndex = 0 := by
  rw [sqeForFile_eq]
  rfl

/-- Stores the index of a destination slot, when there is one. -/
def setFileIndex (sqe : Sqe) : Option DestinationSlot → Sqe
  | some dest => { sqe with fileIndex := dest.kernelIndexArg }
  | none => sqe

@[simp] theorem setFileIndex_fd (sqe : Sqe) (dest : Option DestinationSlot) :
    (setFileIndex sqe dest).fd = sqe.fd := by
  cases dest <;> rfl

@[simp] theorem setFileIndex_flags (sqe : Sqe) (dest : Option DestinationSlot) :
    (setFileIndex sqe dest).flags = sqe.flags := by
  cases dest <;> rfl

end IoUring.Opcode
