import IoUring.Opcode.Net

/-!
# The specialised receive builders

Each of them builds what the plain one does with the bits it is named for, once
the caller asks for a buffer of the group by the entry's flag.
-/

namespace IoUring.Opcode

open Squeue IoUring.Types

variable (fd : Target) (bufGroup : UInt16)

/-- Only the order of the writes differs. -/
theorem RecvMsgMulti.build_eq (msg : UInt64) (ioprio : UInt16) (flags : UInt32) :
    RecvMsgMulti.build { fd, msg, bufGroup, ioprio, flags } =
      (RecvMsg.build
        { fd, msg, ioprio := ioprio ||| Sys.ioringRecvMultishot, flags, bufGroup }).flags
          Flags.bufferSelect :=
  rfl

/-- The address that is not written is null. -/
theorem RecvMulti.build_eq (flags : Int32) (len : UInt32) :
    RecvMulti.build { fd, bufGroup, flags, len } =
      (Recv.build
        { fd, buf := 0, len, ioprio := Sys.ioringRecvMultishot, flags, bufGroup }).flags
          Flags.bufferSelect := by
  simp only [RecvMulti.build, Recv.build, Entry.flags, sqeForFile_addr]

/-- The bit of the priority is added to none. -/
theorem RecvBundle.build_eq (flags : Int32) :
    RecvBundle.build { fd, bufGroup, flags } =
      (Recv.build
        { fd, buf := 0, len := 0, ioprio := Sys.ioringRecvsendBundle, flags, bufGroup }).flags
          Flags.bufferSelect := by
  simp only [RecvBundle.build, Recv.build, Entry.flags, sqeForFile_addr, sqeForFile_len,
    sqeForFile_ioprio, UInt16.zero_or]

theorem RecvMultiBundle.build_eq (flags : Int32) :
    RecvMultiBundle.build { fd, bufGroup, flags } =
      (Recv.build
        { fd, buf := 0, len := 0,
          ioprio := Sys.ioringRecvMultishot ||| Sys.ioringRecvsendBundle, flags,
          bufGroup }).flags Flags.bufferSelect := by
  simp only [RecvMultiBundle.build, Recv.build, Entry.flags, sqeForFile_addr, sqeForFile_len]

/-- The multishot and bundle builders are the plain ones with their documented bits, in every
field of the entry. -/
theorem receive_builders_specialise :
    (∀ (fd : Target) (msg : UInt64) (bufGroup ioprio : UInt16) (flags : UInt32),
      RecvMsgMulti.build { fd, msg, bufGroup, ioprio, flags } =
        (RecvMsg.build
          { fd, msg, ioprio := ioprio ||| Sys.ioringRecvMultishot, flags, bufGroup }).flags
            Flags.bufferSelect) ∧
      (∀ (fd : Target) (bufGroup : UInt16) (flags : Int32) (len : UInt32),
        RecvMulti.build { fd, bufGroup, flags, len } =
          (Recv.build
            { fd, buf := 0, len, ioprio := Sys.ioringRecvMultishot, flags, bufGroup }).flags
              Flags.bufferSelect) ∧
      (∀ (fd : Target) (bufGroup : UInt16) (flags : Int32),
        RecvBundle.build { fd, bufGroup, flags } =
          (Recv.build
            { fd, buf := 0, len := 0, ioprio := Sys.ioringRecvsendBundle, flags,
              bufGroup }).flags Flags.bufferSelect) ∧
      (∀ (fd : Target) (bufGroup : UInt16) (flags : Int32),
        RecvMultiBundle.build { fd, bufGroup, flags } =
          (Recv.build
            { fd, buf := 0, len := 0,
              ioprio := Sys.ioringRecvMultishot ||| Sys.ioringRecvsendBundle, flags,
              bufGroup }).flags Flags.bufferSelect) := by
  constructor
  · intro fd msg bufGroup ioprio flags
    exact RecvMsgMulti.build_eq fd bufGroup msg ioprio flags
  constructor
  · exact RecvMulti.build_eq
  constructor
  · exact RecvBundle.build_eq
  · exact RecvMultiBundle.build_eq

end IoUring.Opcode
