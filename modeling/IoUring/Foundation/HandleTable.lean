import Mathlib.Logic.Function.Basic

/-!
# Handles into a shared table

Several parties share a table of numbered handles. Each holds at most one
handle, which it was given when it entered a target and which it alone gives
back; while it holds it, the handle leads to the target.
-/

namespace IoUring.Foundation

variable {ι K V : Type*} [DecidableEq ι] [DecidableEq K]

/-- Every handle that is held leads to `target`, and no two parties hold the same one. -/
structure Held (table : K → Option V) (held : ι → Option K) (target : V) : Prop where
  leads : ∀ i k, held i = some k → table k = some target
  apart : ∀ i j k, held i = some k → held j = some k → i = j

variable {table : K → Option V} {held : ι → Option K} {target : V}

omit [DecidableEq ι] [DecidableEq K] in
theorem Held.nobody : Held table (fun _ : ι => none) target where
  leads := nofun
  apart := nofun

omit [DecidableEq K] in
/-- Who holds something after `i` lost its handle is another party, and held it before. -/
theorem of_update_none {i j : ι} {k : K} (hk : Function.update held i none j = some k) :
    j ≠ i ∧ held j = some k := by
  have hj : j ≠ i := by
    intro hj
    rw [hj, Function.update_self] at hk
    cases hk
  exact ⟨hj, by rwa [Function.update_of_ne hj] at hk⟩

omit [DecidableEq K] in
/-- A party may forget its handle without giving it back. -/
theorem Held.forget (h : Held table held target) (i : ι) :
    Held table (Function.update held i none) target where
  leads j k hk := h.leads j k (of_update_none hk).2
  apart j j' k hk hk' := h.apart j j' k (of_update_none hk).2 (of_update_none hk').2

/-- A fresh handle is nobody's yet. -/
theorem Held.enter (h : Held table held target) {k : K} (hfresh : table k = none) (i : ι) :
    Held (Function.update table k (some target)) (Function.update held i (some k)) target := by
  have hnew (j : ι) : held j ≠ some k := by
    intro hj
    rw [h.leads j k hj] at hfresh
    cases hfresh
  constructor
  · intro j l hl
    by_cases hk : l = k
    · rw [hk, Function.update_self]
    · rw [Function.update_of_ne hk]
      apply h.leads j l
      by_cases hj : j = i
      · rw [hj, Function.update_self] at hl
        exact absurd (Option.some.inj hl).symm hk
      · rwa [Function.update_of_ne hj] at hl
  · intro j j' l hl hl'
    by_cases hj : j = i <;> by_cases hj' : j' = i
    · rw [hj, hj']
    · rw [hj, Function.update_self] at hl
      rw [Function.update_of_ne hj', ← hl] at hl'
      exact absurd hl' (hnew j')
    · rw [hj', Function.update_self] at hl'
      rw [Function.update_of_ne hj, ← hl'] at hl
      exact absurd hl (hnew j)
    · rw [Function.update_of_ne hj] at hl
      rw [Function.update_of_ne hj'] at hl'
      exact h.apart j j' l hl hl'

/-- Giving a handle back takes it from nobody else. -/
theorem Held.release (h : Held table held target) {i : ι} {k : K} (hk : held i = some k) :
    Held (Function.update table k none) (Function.update held i none) target where
  leads j l hl := by
    obtain ⟨hj, hl⟩ := of_update_none hl
    have hne : l ≠ k := fun heq => hj (h.apart j i k (heq ▸ hl) hk)
    rw [Function.update_of_ne hne]
    exact h.leads j l hl
  apart := (h.forget i).apart

end IoUring.Foundation
