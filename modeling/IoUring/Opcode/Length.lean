import IoUring.Foundation.Cast
import IoUring.Opcode.File
import IoUring.Opcode.Net

/-!
# Lengths that are wider than their field

Four builders take a length that is wider than the field they cast it to. The
field keeps the length modulo its width, so a request may go out for another
length than it was made for.
-/

namespace IoUring.Opcode

open Squeue IoUring.Types

/-- A builder that casts a length, with its other arguments. -/
inductive Shortener where
  | fadvise (op : Fadvise)
  | madvise (op : Madvise)
  | send (op : Send)
  | sendZc (op : SendZc)

namespace Shortener

/-- The type of the length: `off_t` or `socklen_t`. -/
def Length : Shortener → Type
  | .fadvise _ | .madvise _ => Int64
  | .send _ | .sendZc _ => UInt32

/-- The entry for a length. -/
def build : (b : Shortener) → b.Length → Entry
  | .fadvise op, len => Fadvise.build { op with len := len }
  | .madvise op, len => Madvise.build { op with len := len }
  | .send op, len => Send.build { op with destAddrLen := len }
  | .sendZc op, len => SendZc.build { op with destAddrLen := len }

/-- The length that is asked for. -/
def requested : (b : Shortener) → b.Length → Int
  | .fadvise _, len | .madvise _, len => Int64.toInt len
  | .send _, len | .sendZc _, len => UInt32.toNat len

/-- The length in the entry: `len`, or `addr_len`. -/
def stored (sqe : Sqe) : Shortener → Nat
  | .fadvise _ | .madvise _ => sqe.len.toNat
  | .send _ | .sendZc _ => sqe.fileIndex.toUInt16.toNat

/-- The number of values of the field. -/
def width : Shortener → Int
  | .fadvise _ | .madvise _ => 2 ^ 32
  | .send _ | .sendZc _ => 2 ^ 16

end Shortener

/-- `addr_len` in a word that is zero so far. -/
theorem withLow16_toUInt16 {word : UInt32} (hzero : word = 0) (v : UInt16) :
    (withLow16 word v).toUInt16 = v := by
  rw [hzero, withLow16, UInt32.zero_and, UInt32.zero_or, UInt16.toUInt16_toUInt32]

theorem SendZc.build_fileIndex (op : SendZc) :
    op.build.sqe.fileIndex = withLow16 0 op.destAddrLen.toUInt16 := by
  cases hbuf : op.bufIndex <;> simp [SendZc.build, hbuf]

namespace Shortener

/-- The field keeps the length modulo its width. -/
theorem stored_build (b : Shortener) (len : b.Length) :
    (b.stored (b.build len).sqe : Int) = b.requested len % b.width := by
  cases b with
  | fadvise op | madvise op => exact Foundation.toNat_toUInt32 len
  | send op =>
      have hzero : (sqeForFile .send op.fd).fileIndex = 0 := sqeForFile_fileIndex ..
      change ((withLow16 (sqeForFile .send op.fd).fileIndex
        (UInt32.toUInt16 len)).toUInt16.toNat : Int) = _
      rw [withLow16_toUInt16 hzero]
      exact Foundation.toNat_toUInt16 len
  | sendZc op =>
      change ((SendZc.build { op with destAddrLen := len }).sqe.fileIndex.toUInt16.toNat : Int) = _
      rw [SendZc.build_fileIndex, withLow16_toUInt16 rfl]
      exact Foundation.toNat_toUInt16 len

/-- The length goes into its field and nowhere else. -/
theorem build_eq_iff (b : Shortener) (len len' : b.Length) :
    b.build len = b.build len' ↔ b.requested len % b.width = b.requested len' % b.width := by
  constructor
  · intro h
    rw [← b.stored_build len, ← b.stored_build len', h]
  · intro h
    cases b with
    | fadvise op | madvise op =>
        have hword : (Int64.toUInt64 len).toUInt32 = (Int64.toUInt64 len').toUInt32 :=
          (Foundation.toUInt32_eq_iff len len').mpr h
        simp only [build, Fadvise.build, Madvise.build, hword]
    | send op | sendZc op =>
        have hword : UInt32.toUInt16 len = UInt32.toUInt16 len' :=
          (Foundation.toUInt16_eq_iff len len').mpr h
        simp only [build, Send.build, SendZc.build, hword]

theorem width_pos (b : Shortener) : 0 < b.width := by
  cases b with
  | fadvise | madvise => exact (by decide : (0 : Int) < 2 ^ 32)
  | send | sendZc => exact (by decide : (0 : Int) < 2 ^ 16)

/-- The entry has the length that was asked for exactly if the field has room for it, and of two
lengths with room each has an entry of its own. -/
theorem length_kept_iff (b : Shortener) (len : b.Length) :
    ((b.stored (b.build len).sqe : Int) = b.requested len ↔
        0 ≤ b.requested len ∧ b.requested len < b.width) ∧
      ∀ len' : b.Length, 0 ≤ b.requested len → b.requested len < b.width →
        0 ≤ b.requested len' → b.requested len' < b.width →
        b.build len = b.build len' → b.requested len = b.requested len' := by
  rw [b.stored_build]
  have hwidth := b.width_pos
  constructor
  · constructor
    · intro h
      rw [← h]
      exact ⟨Int.emod_nonneg _ (Int.ne_of_gt hwidth), Int.emod_lt_of_pos _ hwidth⟩
    · rintro ⟨hpos, hlt⟩
      exact Int.emod_eq_of_lt hpos hlt
  · intro len' hpos hlt hpos' hlt' h
    rwa [build_eq_iff, Int.emod_eq_of_lt hpos hlt, Int.emod_eq_of_lt hpos' hlt'] at h

/-- Advice on 4 GiB goes out as advice with length 0. -/
theorem fadvise_four_gib :
    let op : Fadvise := { fd := .fd 3, len := 4294967296, advice := 4 }
    (op.build.sqe.len.toNat : Int) ≠ op.len.toInt ∧ op.build.sqe.len = 0 ∧
      op.build = Fadvise.build { op with len := 0 } := by
  decide

end Shortener

end IoUring.Opcode
