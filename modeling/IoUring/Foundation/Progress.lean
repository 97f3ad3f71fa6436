import IoUring.Foundation.Transition
import Mathlib.Data.List.Infix
import Mathlib.Order.Filter.AtTopBot.Basic

/-!
# What happens sooner or later

An endless run passes through infinitely many instants. What is to happen in it
is said of these: something leads to something else, or comes about again and
again. Nothing here is about a single step; the rules turn what every step does
into what the run comes to, with a rank that falls whenever a party acts.
-/

namespace IoUring.Foundation

open Filter

variable {S L : Type*} {step : S → L → S → Prop} {s₀ : S}

/-- What no step takes from a list that grows at its end is there at every later instant. -/
theorem prefix_of_le {α : Type*} {f : Nat → List α} (h : ∀ i, f i <+: f (i + 1)) {i j : Nat}
    (hij : i ≤ j) : f i <+: f j :=
  Nat.rel_of_forall_rel_succ_of_le (· <+: ·) h hij

/-- An endless run: its states, and the labels from each of them to the next. -/
structure Course (step : S → L → S → Prop) (s₀ : S) where
  state : Nat → S
  label : Nat → L
  state_zero : state 0 = s₀
  step : ∀ i, step (state i) (label i) (state (i + 1))

namespace Course

/-- The labels before an instant. -/
def labels (c : Course step s₀) (i : Nat) : List L := (List.range i).map c.label

theorem labels_succ (c : Course step s₀) (i : Nat) :
    c.labels (i + 1) = c.labels i ++ [c.label i] := by
  simp [labels, List.range_succ]

/-- Every instant ends a run. -/
theorem run (c : Course step s₀) (i : Nat) : Run step s₀ (c.labels i) (c.state i) := by
  induction i with
  | zero =>
      rw [c.state_zero]
      exact .start
  | succ i ih =>
      rw [labels_succ]
      exact ih.next (c.step i)

theorem ledgerAfter_succ {G : Type*} (c : Course step s₀) (record : G → L → G) (g : G)
    (i : Nat) : ledgerAfter record g (c.labels (i + 1)) =
      record (ledgerAfter record g (c.labels i)) (c.label i) := by
  rw [labels_succ, ledgerAfter_snoc]

/-- One step in front of an endless run. -/
def cons {s : S} {l : L} (h : step s₀ l s) (c : Course step s) : Course step s₀ where
  state
    | 0 => s₀
    | i + 1 => c.state i
  label
    | 0 => l
    | i + 1 => c.label i
  state_zero := rfl
  step
    | 0 => by
        rw [← c.state_zero] at h
        exact h
    | i + 1 => c.step i

/-- The same steps over and over again. -/
def round (states : Nat → S) (label : Nat → L) (n : Nat) (hn : 0 < n)
    (h : ∀ i < n, step (states i) (label i) (states ((i + 1) % n))) :
    Course step (states 0) where
  state i := states (i % n)
  label i := label (i % n)
  state_zero := by rw [Nat.zero_mod]
  step i := by
    have hstep := h (i % n) (Nat.mod_lt i hn)
    rwa [Nat.mod_add_mod] at hstep

end Course

/-! ## Leading to -/

/-- From every instant of the first kind on, one of the second kind is still to come. -/
def LeadsTo (P Q : Nat → Prop) : Prop := ∀ i, P i → ∃ j ≥ i, Q j

namespace LeadsTo

variable {P Q R : Nat → Prop}

/-- What only gives way to something else comes to it, or stays. -/
theorem or_stays (hstay : ∀ i, P i → Q (i + 1) ∨ P (i + 1)) {i : Nat} (h : P i) :
    (∃ j ≥ i, Q j) ∨ ∀ j ≥ i, P j := by
  by_cases hQ : ∃ j ≥ i, Q j
  · exact .inl hQ
  · refine .inr fun j hij => ?_
    induction j, hij using Nat.le_induction with
    | base => exact h
    | succ j hij ih =>
        rcases hstay j ih with hnext | hnext
        · exact absurd ⟨j + 1, by omega, hnext⟩ hQ
        · exact hnext

/-- Until it gives way for the first time, it stays. -/
theorem holds_until (hstay : ∀ i, P i → Q (i + 1) ∨ P (i + 1)) (hleads : LeadsTo P Q) {i : Nat}
    (h : P i) : ∃ j ≥ i, Q j ∧ ∀ k ≥ i, k < j → P k := by
  classical
  have hsome : ∃ j, j ≥ i ∧ Q j := hleads i h
  obtain ⟨hij, hQ⟩ := Nat.find_spec hsome
  refine ⟨Nat.find hsome, hij, hQ, fun k hik => ?_⟩
  induction k, hik using Nat.le_induction with
  | base => exact fun _ => h
  | succ k hik ih =>
      intro hlt
      rcases hstay k (ih (Nat.lt_of_succ_lt hlt)) with hnext | hnext
      · exact absurd ⟨Nat.le_succ_of_le hik, hnext⟩ (Nat.find_min hsome hlt)
      · exact hnext

/-- It gives way if something that it excludes comes about again and again. -/
theorem of_recurs (hstay : ∀ i, P i → Q (i + 1) ∨ P (i + 1)) (hrecurs : ∃ᶠ i in atTop, R i)
    (hout : ∀ i, P i → ¬ R i) : LeadsTo P Q := by
  intro i hP
  rcases or_stays hstay hP with hQ | hstays
  · exact hQ
  · obtain ⟨j, hij, hR⟩ := frequently_atTop.mp hrecurs i
    exact absurd hR (hout j (hstays j hij))

/-- It gives way if it keeps a rank from rising, and acts that lower the rank go on. -/
theorem of_rank {A : Nat → Prop} (rank : Nat → Nat)
    (hstay : ∀ i, P i → Q (i + 1) ∨ P (i + 1) ∧ rank (i + 1) ≤ rank i)
    (hact : ∀ i, P i → A i → Q (i + 1) ∨ rank (i + 1) < rank i) (hfair : LeadsTo P A) :
    LeadsTo P Q := by
  intro i hP
  induction hrank : rank i using Nat.strong_induction_on generalizing i with
  | _ n ih =>
      have hkept (k : Nat) (hk : P k ∧ rank k ≤ n) :
          Q (k + 1) ∨ P (k + 1) ∧ rank (k + 1) ≤ n := by
        rcases hstay k hk.1 with hQ | ⟨hnext, hle⟩
        · exact .inl hQ
        · exact .inr ⟨hnext, hle.trans hk.2⟩
      rcases or_stays hkept ⟨hP, hrank.le⟩ with hQ | hstays
      · exact hQ
      obtain ⟨j, hij, hA⟩ := hfair i hP
      obtain ⟨hPj, hle⟩ := hstays j hij
      rcases hact j hPj hA with hQ | hlt
      · exact ⟨j + 1, by omega, hQ⟩
      · obtain ⟨k, hjk, hQ⟩ := ih _ (hlt.trans_le hle) (j + 1) (hstays (j + 1) (by omega)).1 rfl
        exact ⟨k, by omega, hQ⟩

/-- What grows whenever it is short of a number comes to it. -/
theorem of_growth {f : Nat → Nat} {n : Nat}
    (hgrow : ∀ i, P i → f i < n → ∃ j ≥ i, P j ∧ f i < f j) :
    LeadsTo P fun j => n ≤ f j := by
  intro i hP
  induction hleft : n - f i using Nat.strong_induction_on generalizing i with
  | _ left ih =>
      by_cases hlt : f i < n
      · obtain ⟨j, hij, hPj, hfj⟩ := hgrow i hP hlt
        obtain ⟨k, hjk, hk⟩ := ih (n - f j) (by omega) j hPj rfl
        exact ⟨k, hij.trans hjk, hk⟩
      · exact ⟨i, Nat.le_refl i, Nat.le_of_not_lt hlt⟩

end LeadsTo

end IoUring.Foundation
