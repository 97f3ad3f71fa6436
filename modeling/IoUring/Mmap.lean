import IoUring.Foundation.ByteField

/-!
# Mappings

A region mapped using `mmap(2)` with its bytes. A pointer into it is an offset
from its start; a load or store that is not inside the mapping gives `none`.
-/

namespace IoUring

structure Mmap where
  bytes : List UInt8

namespace Mmap

open Foundation (slice overwrite leBytes ofLeBytes)

variable (m : Mmap)

def len : Nat := m.bytes.length

/-- The read of a `u32`. -/
def loadWord (offset : Nat) : Option UInt32 :=
  (slice m.bytes offset (offset + 4)).map ofLeBytes

/-- The write of a `u32`. -/
def storeWord (offset : Nat) (word : UInt32) : Option Mmap :=
  if offset + 4 ≤ m.len then some ⟨overwrite m.bytes offset (leBytes word)⟩ else none

variable {m} {offset other : Nat} {word : UInt32}

theorem loadWord_of_le (h : offset + 4 ≤ m.len) : ∃ word, m.loadWord offset = some word :=
  ⟨_, by rw [loadWord, Foundation.slice_of_le (by omega) h, Option.map_some]⟩

theorem of_loadWord (h : m.loadWord offset = some word) : offset + 4 ≤ m.len := by
  obtain ⟨bytes, hslice, -⟩ := Option.map_eq_some_iff.mp h
  exact (Foundation.of_slice hslice).1

/-- A store inside the mapping succeeds, is read back, and leaves every word apart from it. -/
theorem storeWord_of_le (h : offset + 4 ≤ m.len) (word : UInt32) :
    ∃ m', m.storeWord offset word = some m' ∧ m'.len = m.len ∧
      m'.loadWord offset = some word ∧
      ∀ other, other + 4 ≤ offset ∨ offset + 4 ≤ other → m'.loadWord other = m.loadWord other := by
  have hfits : offset + (leBytes word).length ≤ m.bytes.length := h
  refine ⟨_, if_pos h, Foundation.length_overwrite hfits, ?_, ?_⟩
  · have hslice : slice (overwrite m.bytes offset (leBytes word)) offset (offset + 4) =
        some (leBytes word) := Foundation.slice_overwrite hfits rfl
    simp only [loadWord, hslice, Option.map_some, Foundation.ofLeBytes_leBytes]
  · intro other hapart
    unfold loadWord
    rcases hapart with hbefore | hafter
    · rw [Foundation.slice_overwrite_before hfits hbefore]
    · rw [Foundation.slice_overwrite_after hfits hafter]

theorem of_storeWord {m' : Mmap} (h : m.storeWord offset word = some m') :
    offset + 4 ≤ m.len := by
  unfold storeWord at h
  split at h
  · assumption
  · cases h

theorem len_storeWord {m' : Mmap} (h : m.storeWord offset word = some m') : m'.len = m.len := by
  obtain ⟨m₁, hstore, hlen, -⟩ := storeWord_of_le (of_storeWord h) word
  obtain rfl : m₁ = m' := Option.some.inj (hstore.symm.trans h)
  exact hlen

/-- Storing the word that is there already leaves the mapping as it is. -/
theorem storeWord_of_loadWord (h : m.loadWord offset = some word) :
    m.storeWord offset word = some m := by
  obtain ⟨bytes, hslice, hword⟩ := Option.map_eq_some_iff.mp h
  obtain ⟨hrange, hbytes⟩ := Foundation.of_slice hslice
  have hlength : bytes.length = 4 := by
    rw [← hbytes, List.length_take, List.length_drop]
    omega
  have hthere : slice m.bytes offset (offset + (leBytes word).length) = some (leBytes word) := by
    rw [← hword, Foundation.leBytes_ofLeBytes hlength, hlength]
    exact hslice
  rw [storeWord, Foundation.overwrite_of_slice hthere]
  exact if_pos hrange

end Mmap

end IoUring
