import Mathlib.Data.Nat.Digits.Defs

/-!
# Fields of a byte buffer

A buffer is a list; a field is a range of it. Fields that are written from the
front to the back read back what was put in, since a later write leaves every
earlier range as it was.
-/

namespace IoUring.Foundation

variable {α : Type*}

/-- The range `lo..hi`, when it is one of the list's. -/
def slice (xs : List α) (lo hi : Nat) : Option (List α) :=
  if lo ≤ hi ∧ hi ≤ xs.length then some ((xs.drop lo).take (hi - lo)) else none

/-- The list with `data` over its elements from `lo` on. -/
def overwrite (xs : List α) (lo : Nat) (data : List α) : List α :=
  xs.take lo ++ data ++ xs.drop (lo + data.length)

variable {xs data : List α} {lo hi i j : Nat}

theorem slice_of_le (h : lo ≤ hi) (h' : hi ≤ xs.length) :
    slice xs lo hi = some ((xs.drop lo).take (hi - lo)) := if_pos ⟨h, h'⟩

/-- A range of the list ends inside it. -/
theorem of_slice {n : Nat} (h : slice xs lo (lo + n) = some data) :
    lo + n ≤ xs.length ∧ (xs.drop lo).take n = data := by
  unfold slice at h
  split at h
  · rename_i hrange
    rw [Nat.add_sub_cancel_left, Option.some_inj] at h
    exact ⟨hrange.2, h⟩
  · cases h

theorem length_overwrite (h : lo + data.length ≤ xs.length) :
    (overwrite xs lo data).length = xs.length := by
  simp only [overwrite, List.length_append, List.length_take, List.length_drop]
  omega

/-- The range that was written holds what was written. -/
theorem slice_overwrite (h : lo + data.length ≤ xs.length) (hhi : hi = lo + data.length) :
    slice (overwrite xs lo data) lo hi = some data := by
  have hlen : (xs.take lo).length = lo := by
    rw [List.length_take]
    omega
  rw [slice_of_le (by omega) (by rw [length_overwrite h]; omega), overwrite, List.append_assoc,
    List.drop_left' hlen, List.take_left' (by omega)]

/-- A range that ends where the write begins, or before, is as it was. -/
theorem slice_overwrite_before (h : lo + data.length ≤ xs.length) (hj : j ≤ lo) :
    slice (overwrite xs lo data) i j = slice xs i j := by
  have htake : (overwrite xs lo data).take j = xs.take j := by
    rw [overwrite, List.append_assoc, List.take_append_of_le_length (by simp; omega),
      List.take_take, Nat.min_eq_left hj]
  simp only [slice, length_overwrite h, ← List.drop_take, htake]

/-- A range that begins where the write ends, or behind, is as it was. -/
theorem slice_overwrite_after (h : lo + data.length ≤ xs.length) (hi' : lo + data.length ≤ i) :
    slice (overwrite xs lo data) i j = slice xs i j := by
  have hlen : (xs.take lo ++ data).length = lo + data.length := by
    rw [List.length_append, List.length_take]
    omega
  have hdrop : (overwrite xs lo data).drop i = xs.drop i := by
    rw [overwrite, List.drop_append, List.drop_eq_nil_of_le (by omega), List.nil_append, hlen,
      List.drop_drop, Nat.add_sub_cancel' hi']
  simp only [slice, length_overwrite h, hdrop]

/-- A write up to the end leaves what is before it. -/
theorem overwrite_to_end (h : xs.length = lo + data.length) :
    overwrite xs lo data = xs.take lo ++ data := by
  rw [overwrite, List.drop_eq_nil_of_le (Nat.le_of_eq h), List.append_nil]

/-- Writing what is there already changes nothing. -/
theorem overwrite_of_slice (h : slice xs lo (lo + data.length) = some data) :
    overwrite xs lo data = xs := by
  have htake := (of_slice h).2
  calc
    overwrite xs lo data
        = xs.take lo ++ ((xs.drop lo).take data.length ++ (xs.drop lo).drop data.length) := by
          rw [htake, List.drop_drop, overwrite, List.append_assoc]
    _ = xs := by rw [List.take_append_drop, List.take_append_drop]

/-- The four bytes of a word, the least significant first. -/
def leBytes (w : UInt32) : List UInt8 :=
  [.ofNat w.toNat, .ofNat (w.toNat / 256), .ofNat (w.toNat / 256 ^ 2), .ofNat (w.toNat / 256 ^ 3)]

/-- The word that bytes spell, the least significant first. -/
def ofLeBytes (bytes : List UInt8) : UInt32 :=
  .ofNat (Nat.ofDigits 256 (bytes.map UInt8.toNat))

@[simp] theorem length_leBytes (w : UInt32) : (leBytes w).length = 4 := rfl

@[simp] theorem ofLeBytes_leBytes (w : UInt32) : ofLeBytes (leBytes w) = w := by
  have hw := w.toNat_lt
  apply UInt32.toNat_inj.mp
  simp only [ofLeBytes, leBytes, List.map_cons, List.map_nil, Nat.ofDigits_cons, Nat.ofDigits_nil,
    UInt8.toNat_ofNat', UInt32.toNat_ofNat']
  omega

theorem leBytes_ofLeBytes {bytes : List UInt8} (h : bytes.length = 4) :
    leBytes (ofLeBytes bytes) = bytes := by
  match bytes, h with
  | [a, b, c, d], _ =>
    have ha := a.toNat_lt
    have hb := b.toNat_lt
    have hc := c.toNat_lt
    have hd := d.toNat_lt
    simp only [leBytes, ofLeBytes, List.map_cons, List.map_nil, Nat.ofDigits_cons,
      Nat.ofDigits_nil, UInt32.toNat_ofNat', List.cons.injEq, ← UInt8.toNat_inj,
      UInt8.toNat_ofNat', and_true]
    omega

/-- The lowest `n` bytes of a number, the least significant first. -/
def littleEndian : Nat → Nat → List UInt8
  | 0, _ => []
  | n + 1, x => .ofNat x :: littleEndian n (x / 256)

@[simp] theorem length_littleEndian (n x : Nat) : (littleEndian n x).length = n := by
  induction n generalizing x with
  | zero => rfl
  | succ n ih => rw [littleEndian, List.length_cons, ih]

/-- The bytes of a number are its digits. -/
theorem getElem_littleEndian {n x i : Nat} (h : i < (littleEndian n x).length) :
    (littleEndian n x)[i] = .ofNat (x / 256 ^ i) := by
  induction n generalizing x i with
  | zero => exact absurd h (Nat.not_lt_zero i)
  | succ n ih =>
      cases i with
      | zero => simp [littleEndian]
      | succ i => simp [littleEndian, ih, Nat.pow_succ', Nat.div_div_eq_div_mul]

/-- The bytes of a word lie behind each other. -/
theorem littleEndian_add (m n x : Nat) :
    littleEndian (m + n) x = littleEndian m x ++ littleEndian n (x / 256 ^ m) := by
  induction m generalizing x with
  | zero => rw [Nat.zero_add, Nat.pow_zero, Nat.div_one, littleEndian, List.nil_append]
  | succ m ih =>
      rw [Nat.succ_add, littleEndian, ih, littleEndian, List.cons_append, Nat.div_div_eq_div_mul,
        Nat.pow_succ']

end IoUring.Foundation
