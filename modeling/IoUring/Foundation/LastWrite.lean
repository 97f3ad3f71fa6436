import Mathlib.Data.List.Basic

/-!
# The last write wins

A sequence of writes is applied to a state in order. A part of the state that
every write either sets or leaves alone ends up as the last write that sets it
left it.
-/

namespace IoUring.Foundation

variable {S C α : Type*}

/-- The last value that a sequence gives to one part of the state. -/
def lastGiven (given : C → Option α) (calls : List C) : Option α :=
  (calls.filterMap given).getLast?

variable {apply : S → C → S} {read : S → α} {given : C → Option α}

theorem read_foldl (hread : ∀ s c, read (apply s c) = (given c).getD (read s)) (s : S)
    (calls : List C) :
    read (calls.foldl apply s) = (lastGiven given calls).getD (read s) := by
  induction calls generalizing s with
  | nil => rfl
  | cons c rest ih =>
      rw [List.foldl_cons, ih, hread, lastGiven, lastGiven]
      cases hgiven : given c with
      | none => rw [List.filterMap_cons_none hgiven, Option.getD_none]
      | some v =>
          rw [List.filterMap_cons_some hgiven, List.getLast?_cons, Option.getD_some,
            Option.getD_some]

/-- Two neighbouring writes that commute may be exchanged. -/
theorem foldl_swap {c c' : C} (hcomm : ∀ s, apply (apply s c) c' = apply (apply s c') c) (s : S)
    (a b : List C) :
    (a ++ c :: c' :: b).foldl apply s = (a ++ c' :: c :: b).foldl apply s := by
  rw [List.foldl_append, List.foldl_append, List.foldl_cons, List.foldl_cons, hcomm]
  rfl

end IoUring.Foundation
