import Mathlib.Data.Nat.ModEq
import Mathlib.Logic.Function.Basic
import Mathlib.Data.List.Basic

/-!
# A window of a log kept in circular slots

The positions of an ever growing log are laid over `N` slots, position `i` at
slot `(base + i) % N`. The slots can hold a window of at most `N` consecutive
positions; `Holds` says that they hold everything from position `lo` to the end
of the log.
-/

namespace IoUring.Foundation

variable {α : Type*} {N base lo : Nat} {slots : Nat → α} {log : List α}

/-- The slots hold the positions of the log from `lo` on. -/
def Holds (N base : Nat) (slots : Nat → α) (log : List α) (lo : Nat) : Prop :=
  ∀ i (h : i < log.length), lo ≤ i → slots ((base + i) % N) = log[i]

/-- Two positions of one window share a slot only if they are equal. -/
theorem slot_ne {i j : Nat} (hij : i < j) (hj : j < i + N) :
    (base + i) % N ≠ (base + j) % N := by
  intro heq
  have hdvd : N ∣ (base + j) - (base + i) := (Nat.modEq_iff_dvd' (by omega)).mp heq
  have hzero := Nat.eq_zero_of_dvd_of_lt hdvd (by omega)
  omega

/-- A later lower end asks for less. -/
theorem Holds.mono {lo' : Nat} (hle : lo ≤ lo') (h : Holds N base slots log lo) :
    Holds N base slots log lo' :=
  fun i hi hlo => h i hi (Nat.le_trans hle hlo)

/-- Forgetting the end of the log keeps the rest of the window. -/
theorem Holds.forget {tail : List α} (h : Holds N base slots (log ++ tail) lo) :
    Holds N base slots log lo := by
  intro i hi hlo
  have hi' : i < (log ++ tail).length := by simp; omega
  rw [h i hi' hlo, List.getElem_append_left hi]

/-- Writing the next position to its slot extends the window while there is room. -/
theorem Holds.write (x : α) (hroom : log.length < lo + N)
    (h : Holds N base slots log lo) :
    Holds N base (Function.update slots ((base + log.length) % N) x) (log ++ [x]) lo := by
  intro i hi hlo
  rcases Nat.lt_or_ge i log.length with hold | hnew
  · rw [Function.update_of_ne (slot_ne hold (by omega)), h i hold hlo,
      List.getElem_append_left hold]
  · obtain rfl : i = log.length := by simp at hi; omega
    simp

end IoUring.Foundation
