import IoUring.Foundation.Packed
import IoUring.Squeue.Entry

/-!
# The bytes of an entry

`io_uring_sqe` is `repr(C)` and has no padding: its fields lie behind each other
in their order, on a little-endian target with the lowest byte first. The bytes
of an `Entry128` behind the entry are those of its array. So the bytes of the
right number are those of one entry.
-/

namespace IoUring.Squeue

open Foundation

/-- The bytes of the fields that precede the command. -/
def Sqe.head (sqe : Sqe) : List UInt8 :=
  [sqe.opcode, sqe.flags] ++ littleEndian 2 sqe.ioprio.toNat ++
    littleEndian 4 sqe.fd.toUInt32.toNat ++ littleEndian 8 sqe.off.toNat ++
    littleEndian 8 sqe.addr.toNat ++ littleEndian 4 sqe.len.toNat ++
    littleEndian 4 sqe.opFlags.toNat ++ littleEndian 8 sqe.userData.toNat ++
    littleEndian 2 sqe.bufIndex.toNat ++ littleEndian 2 sqe.personality.toNat ++
    littleEndian 4 sqe.fileIndex.toNat

def Sqe.bytes (sqe : Sqe) : List UInt8 := sqe.head ++ sqe.cmd.toList

def Entry128.bytes (entry : Entry128) : List UInt8 := entry.entry.sqe.bytes ++ entry.rest.toList

@[simp] theorem Sqe.length_head (sqe : Sqe) : sqe.head.length = 48 := rfl

@[simp] theorem Sqe.length_bytes (sqe : Sqe) : sqe.bytes.length = 64 := by
  rw [Sqe.bytes, List.length_append, Sqe.length_head, Vector.length_toList]

@[simp] theorem Entry128.length_bytes (entry : Entry128) : entry.bytes.length = 128 := by
  rw [Entry128.bytes, List.length_append, Sqe.length_bytes, Vector.length_toList]

/-- The first 48 bytes of a big entry are those of the fields before the command. -/
theorem Entry128.take_bytes (entry : Entry128) : entry.bytes.take 48 = entry.entry.sqe.head := by
  rw [Entry128.bytes, Sqe.bytes, List.append_assoc]
  exact List.take_left' (Sqe.length_head _)

/-- The bytes behind the first 48 of a big entry. -/
theorem Entry128.slice_bytes (entry : Entry128) :
    slice entry.bytes 48 128 = some (entry.entry.sqe.cmd.toList ++ entry.rest.toList) := by
  have hlen : 128 ≤ entry.bytes.length := Nat.le_of_eq entry.length_bytes.symm
  rw [slice_of_le (by decide) hlen, Entry128.bytes, Sqe.bytes, List.append_assoc,
    List.drop_left' (Sqe.length_head _), List.take_of_length_le]
  rw [List.length_append, Vector.length_toList, Vector.length_toList]

/-- A field of the first 48 bytes of a big entry. -/
theorem Entry128.slice_bytes_head (entry : Entry128) {lo hi : Nat} (h : hi ≤ 48) :
    slice entry.bytes lo hi = slice entry.entry.sqe.head lo hi := by
  have htake : entry.bytes.take hi = entry.entry.sqe.head.take hi := by
    rw [Entry128.bytes, Sqe.bytes, List.append_assoc, List.take_append_of_le_length]
    exact h.trans (Nat.le_of_eq (Sqe.length_head _).symm)
  simp only [slice, ← List.drop_take, htake, Entry128.length_bytes, Sqe.length_head]
  grind

/-- `From<Entry> for Entry128` on what a builder returns; a big entry is one already. -/
def Built.widen : Built → Entry128
  | .entry e => .ofEntry e
  | .entry128 e => e

/-- A setter does the same before the conversion as after it. -/
theorem Built.widen_apply (built : Built) (setter : Setter) :
    (built.apply setter).widen = ((Built.entry128 built.widen).apply setter).widen := by
  cases built <;> cases setter <;> rfl

theorem Built.widen_applyAll (built : Built) (setters : List Setter) :
    (built.applyAll setters).widen =
      ((Built.entry128 built.widen).applyAll setters).widen := by
  induction setters generalizing built with
  | nil => rfl
  | cons setter rest ih =>
      calc
        ((built.apply setter).applyAll rest).widen
            = ((Built.entry128 (built.apply setter).widen).applyAll rest).widen := ih _
        _ = ((Built.entry128 ((Built.entry128 built.widen).apply setter).widen).applyAll
              rest).widen := by rw [widen_apply]
        _ = (((Built.entry128 built.widen).apply setter).applyAll rest).widen := (ih _).symm

/-! ## Entries are packed records -/

def Sqe.fields : Sqe ≃ UInt8 × UInt8 × UInt16 × Int32 × UInt64 × UInt64 × UInt32 × UInt32 ×
    UInt64 × UInt16 × UInt16 × UInt32 × Vector UInt8 16 where
  toFun sqe := (sqe.opcode, sqe.flags, sqe.ioprio, sqe.fd, sqe.off, sqe.addr, sqe.len,
    sqe.opFlags, sqe.userData, sqe.bufIndex, sqe.personality, sqe.fileIndex, sqe.cmd)
  invFun := fun (opcode, flags, ioprio, fd, off, addr, len, opFlags, userData, bufIndex,
      personality, fileIndex, cmd) =>
    { opcode, flags, ioprio, fd, off, addr, len, opFlags, userData, bufIndex, personality,
      fileIndex, cmd }
  left_inv _ := rfl
  right_inv _ := rfl

instance : Packed Sqe := .ofEquiv Sqe.fields

instance : Packed Entry := .ofEquiv (A := Sqe)
  { toFun := Entry.sqe
    invFun := Entry.mk
    left_inv := fun _ => rfl
    right_inv := fun _ => rfl }

instance : Packed Entry128 := .ofEquiv (A := Entry × Vector UInt8 64)
  { toFun := fun entry => (entry.entry, entry.rest)
    invFun := fun (entry, rest) => { entry, rest }
    left_inv := fun _ => rfl
    right_inv := fun _ => rfl }

theorem Sqe.packed_bytes (sqe : Sqe) : Packed.bytes sqe = sqe.bytes := by
  have hopcode : littleEndian 1 sqe.opcode.toNat = [sqe.opcode] := by simp [littleEndian]
  have hflags : littleEndian 1 sqe.flags.toNat = [sqe.flags] := by simp [littleEndian]
  simp only [Packed.bytes, Sqe.fields, Equiv.coe_fn_mk, hopcode, hflags, Sqe.bytes, Sqe.head,
    List.append_assoc, List.cons_append, List.nil_append]

theorem Entry128.packed_bytes (entry : Entry128) : Packed.bytes entry = entry.bytes := by
  have hsqe := entry.entry.sqe.packed_bytes
  calc
    Packed.bytes entry = Packed.bytes entry.entry.sqe ++ entry.rest.toList := rfl
    _ = entry.bytes := by rw [hsqe, Entry128.bytes]

/-- The bytes that are copied into the queue. -/
def Built.bytes : Built → List UInt8
  | .entry e => Packed.bytes e
  | .entry128 e => Packed.bytes e

/-- Entries of the two sizes differ in their number of bytes. -/
theorem Built.bytes_injective : Function.Injective Built.bytes := by
  intro built built' h
  cases built with
  | entry e =>
      cases built' with
      | entry e' => exact congrArg Built.entry (Packed.bytes_injective Entry h)
      | entry128 e' =>
          have hlength := congrArg List.length h
          rw [Built.bytes, Built.bytes, Packed.length_bytes, Packed.length_bytes] at hlength
          exact absurd hlength (by decide)
  | entry128 e =>
      cases built' with
      | entry e' =>
          have hlength := congrArg List.length h
          rw [Built.bytes, Built.bytes, Packed.length_bytes, Packed.length_bytes] at hlength
          exact absurd hlength (by decide)
      | entry128 e' => exact congrArg Built.entry128 (Packed.bytes_injective Entry128 h)

/-- The type that a member of `EntryType` stands for. -/
def EntryType.Carrier : EntryType → Type
  | .entry => Entry
  | .entry128 => Entry128

instance (S : EntryType) : Packed S.Carrier :=
  match S with
  | .entry => inferInstanceAs (Packed Entry)
  | .entry128 => inferInstanceAs (Packed Entry128)

instance (S : EntryType) : EntryMarker S.Carrier :=
  match S with
  | .entry => inferInstanceAs (EntryMarker Entry)
  | .entry128 => inferInstanceAs (EntryMarker Entry128)

/-- The size of a type is the number of its values' bytes. -/
theorem EntryType.size_carrier (S : EntryType) : Packed.size S.Carrier = S.size := by
  cases S <;> rfl

end IoUring.Squeue
