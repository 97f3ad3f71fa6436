import Mathlib.Data.List.Basic

/-!
# Runs of a labelled transition relation

Several parties act on one state; every step of any of them carries the label
an observer sees. An interleaving is the order in which the labels appear, so a
statement about all runs is a statement about all interleavings. A run keeps
its labels with the latest one last, in the order in which ledgers grow.
-/

namespace IoUring.Foundation

variable {S L : Type*}

/-- `Run step s₀ labels s`: the steps with these labels lead from `s₀` to `s`. -/
inductive Run (step : S → L → S → Prop) (s₀ : S) : List L → S → Prop
  | start : Run step s₀ [] s₀
  | next {labels s l s'} (run : Run step s₀ labels s) (h : step s l s') :
      Run step s₀ (labels ++ [l]) s'

/-- A ledger folds the labels of a run into a record of what was observed. -/
def ledgerAfter {G : Type*} (record : G → L → G) (g : G) (labels : List L) : G :=
  labels.foldl record g

@[simp] theorem ledgerAfter_nil {G : Type*} (record : G → L → G) (g : G) :
    ledgerAfter record g [] = g := rfl

theorem ledgerAfter_cons {G : Type*} (record : G → L → G) (g : G) (l : L) (labels : List L) :
    ledgerAfter record g (l :: labels) = ledgerAfter record (record g l) labels := rfl

@[simp] theorem ledgerAfter_snoc {G : Type*} (record : G → L → G) (g : G)
    (labels : List L) (l : L) :
    ledgerAfter record g (labels ++ [l]) = record (ledgerAfter record g labels) l := by
  simp [ledgerAfter]

theorem ledgerAfter_append {G : Type*} (record : G → L → G) (g : G) (a b : List L) :
    ledgerAfter record g (a ++ b) = ledgerAfter record (ledgerAfter record g a) b :=
  List.foldl_append

/-- An invariant that relates the ledger to the state holds along every run as
soon as it holds at the start and one step carries it over. -/
theorem Run.invariant {step : S → L → S → Prop} {G : Type*} {r : G → L → G}
    {I : G → S → Prop} {g : G} {s₀ s : S} {labels : List L}
    (hstep : ∀ g s l s', I g s → step s l s' → I (r g l) s')
    (h₀ : I g s₀) (run : Run step s₀ labels s) : I (ledgerAfter r g labels) s := by
  induction run with
  | start => exact h₀
  | next _ h ih =>
      rw [ledgerAfter_snoc]
      exact hstep _ _ _ _ ih h

/-- A system that matches every step of another, label by label, matches its runs. -/
theorem Run.simulate {T : Type*} {step : S → L → S → Prop} {step' : T → L → T → Prop}
    {s₀ s : S} {t₀ : T} {labels : List L} (run : Run step s₀ labels s) {R : S → T → Prop}
    (h₀ : R s₀ t₀)
    (hstep : ∀ s l s' t, R s t → step s l s' → ∃ t', step' t l t' ∧ R s' t') :
    ∃ t, Run step' t₀ labels t ∧ R s t := by
  induction run with
  | start => exact ⟨t₀, .start, h₀⟩
  | next _ h ih =>
      obtain ⟨t, run', hR⟩ := ih
      obtain ⟨t', h', hR'⟩ := hstep _ _ _ t hR h
      exact ⟨t', run'.next h', hR'⟩

/-- The same where the other system sees of every label only so much. -/
theorem Run.simulateThrough {T L' : Type*} {step : S → L → S → Prop} {step' : T → L' → T → Prop}
    {s₀ s : S} {t₀ : T} {labels : List L} (run : Run step s₀ labels s) (f : L → L')
    {R : S → T → Prop} (h₀ : R s₀ t₀)
    (hstep : ∀ s l s' t, R s t → step s l s' → ∃ t', step' t (f l) t' ∧ R s' t') :
    ∃ t, Run step' t₀ (labels.map f) t ∧ R s t := by
  induction run with
  | start => exact ⟨t₀, .start, h₀⟩
  | next _ h ih =>
      obtain ⟨t, run', hR⟩ := ih
      obtain ⟨t', h', hR'⟩ := hstep _ _ _ t hR h
      refine ⟨t', ?_, hR'⟩
      rw [List.map_append]
      exact run'.next h'

/-- One run after another. -/
theorem Run.trans {step : S → L → S → Prop} {s₀ m s : S} {a b : List L}
    (run : Run step s₀ a m) (run' : Run step m b s) : Run step s₀ (a ++ b) s := by
  induction run' with
  | start => rwa [List.append_nil]
  | next _ h ih =>
      rw [← List.append_assoc]
      exact ih.next h

/-- A run passes through a state between any two stretches of its labels. -/
theorem Run.split {step : S → L → S → Prop} {s₀ s : S} {a b : List L}
    (run : Run step s₀ (a ++ b) s) : ∃ m, Run step s₀ a m ∧ Run step m b s := by
  generalize hlabels : a ++ b = labels at run
  induction run generalizing b with
  | start =>
      obtain ⟨rfl, rfl⟩ := List.append_eq_nil_iff.mp hlabels
      exact ⟨s₀, .start, .start⟩
  | next run h ih =>
      rcases List.eq_nil_or_concat b with rfl | ⟨b, l, rfl⟩
      · rw [List.append_nil] at hlabels
        subst hlabels
        exact ⟨_, run.next h, .start⟩
      · rw [List.concat_eq_append, ← List.append_assoc] at hlabels
        obtain ⟨hfront, hlast⟩ := List.append_inj' hlabels rfl
        cases hlast
        obtain ⟨m, run₁, run₂⟩ := ih hfront
        rw [List.concat_eq_append]
        exact ⟨m, run₁, run₂.next h⟩

/-- An instant of a stretch of a run: what has passed of it, what lies ahead, and the state
in between. -/
structure Instant (step : S → L → S → Prop) (s₀ : S) (labels : List L) (s : S) where
  passed : List L
  ahead : List L
  state : S
  whole : passed ++ ahead = labels
  reached : Run step s₀ passed state
  onward : Run step state ahead s

/-- Wherever the labels of a run are cut, there is an instant. -/
theorem Run.instant {step : S → L → S → Prop} {s₀ s : S} {labels a b : List L}
    (run : Run step s₀ labels s) (h : a ++ b = labels) :
    ∃ i : Instant step s₀ labels s, i.passed = a ∧ i.ahead = b := by
  subst h
  obtain ⟨m, reached, onward⟩ := run.split
  exact ⟨⟨a, b, m, rfl, reached, onward⟩, rfl, rfl⟩

end IoUring.Foundation
