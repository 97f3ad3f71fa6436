import IoUring.Foundation.Transition
import Mathlib.Data.Multiset.AddSub

/-!
# Programs that own resources

A program makes calls that may fail or hand it a resource. What a value owns is
released when it is dropped, and a value in scope is dropped if what follows it
fails. A ledger follows acquisitions and releases; it is lost once something is
released that is not held. A value that a program returns takes its resources
along, so the rule for a scope is a frame rule.
-/

namespace IoUring.Foundation

universe u

variable {R W ε : Type*} {α β : Type u}

inductive Effect (R : Type*) where
  | acquired (r : R)
  | released (r : R)
  deriving DecidableEq

/-- What dropping a value releases, in this order. -/
class Owner (R : outParam Type*) (α : Type*) where
  releases : α → List R

export Owner (releases)

structure Outcome (R ε α : Type*) where
  result : Except ε α
  effects : List (Effect R)
  /-- The number of the next call. -/
  calls : Nat

/-- A program whose calls the world answers, each by its number. It stops at the first failure. -/
def Program (W R ε α : Type*) := W → Nat → Outcome R ε α

namespace Program

instance : Monad (Program W R ε) where
  pure a := fun _ n => ⟨.ok a, [], n⟩
  bind x f := fun w n =>
    match x w n with
    | ⟨.error e, effects, n⟩ => ⟨.error e, effects, n⟩
    | ⟨.ok a, effects, n⟩ =>
        let rest := f a w n
        { rest with effects := effects ++ rest.effects }

/-- One call; a value that it returns has just been acquired. -/
def call [Owner R α] (answer : W → Nat → Except ε α) : Program W R ε α := fun w n =>
  match answer w n with
  | .error e => ⟨.error e, [], n + 1⟩
  | .ok a => ⟨.ok a, (releases a).map .acquired, n + 1⟩

/-- The scope of a value: it is dropped if the rest fails and is part of the result otherwise. -/
def holding {γ : Type*} [Owner R γ] (v : γ) (x : Program W R ε α) : Program W R ε α := fun w n =>
  match x w n with
  | ⟨.error e, effects, n⟩ => ⟨.error e, effects ++ (releases v).map .released, n⟩
  | outcome => outcome

variable {x : Program W R ε α} {w : W} {n : Nat}

@[simp] theorem result_pure (a : α) : ((pure a : Program W R ε α) w n).result = .ok a := rfl

@[simp] theorem result_bind (f : α → Program W R ε β) :
    ((x >>= f) w n).result = (x w n).result.bind fun a => (f a w (x w n).calls).result := by
  simp only [bind]
  cases x w n with
  | mk result => cases result <;> rfl

@[simp] theorem result_call [Owner R α] (answer : W → Nat → Except ε α) :
    (call answer w n).result = answer w n := by
  unfold call
  cases answer w n <;> rfl

@[simp] theorem result_holding {γ : Type*} [Owner R γ] (v : γ) :
    (holding v x w n).result = (x w n).result := by
  unfold holding
  cases x w n with
  | mk result => cases result <;> rfl

end Program

/-! ## The ledger -/

section Ledger

variable [DecidableEq R]

def hold (ledger : Option (Multiset R)) : Effect R → Option (Multiset R)
  | .acquired r => ledger.map (r ::ₘ ·)
  | .released r => ledger.bind fun held => if r ∈ held then some (held.erase r) else none

variable {held own : Multiset R}

theorem ledgerAfter_acquired (rs : List R) :
    ledgerAfter hold (some held) (rs.map .acquired) = some ((rs : Multiset R) + held) := by
  induction rs generalizing held with
  | nil => exact congrArg some (Multiset.zero_add held).symm
  | cons r rs ih =>
      calc
        ledgerAfter hold (some held) ((r :: rs).map .acquired)
            = ledgerAfter hold (some (r ::ₘ held)) (rs.map .acquired) := rfl
        _ = some ((rs : Multiset R) + r ::ₘ held) := ih
        _ = some (((r :: rs : List R) : Multiset R) + held) := by
            rw [Multiset.add_cons, ← Multiset.cons_coe, Multiset.cons_add]

/-- What is held can be released, each piece once. -/
theorem ledgerAfter_released (rs : List R) :
    ledgerAfter hold (some ((rs : Multiset R) + held)) (rs.map .released) = some held := by
  induction rs with
  | nil => exact congrArg some (Multiset.zero_add held)
  | cons r rs ih =>
      have hstep : hold (some (((r :: rs : List R) : Multiset R) + held)) (.released r) =
          some ((rs : Multiset R) + held) := by
        rw [← Multiset.cons_coe, Multiset.cons_add, hold, Option.bind_some,
          if_pos (Multiset.mem_cons_self r _), Multiset.erase_cons_head]
      rw [List.map_cons, ledgerAfter_cons, hstep, ih]

/-- `x`, which starts with `own`, releases all that it held if it fails and otherwise holds
what `post` says of its result. What others hold is not touched. -/
def Keeps (own : Multiset R) (x : Program W R ε α) (post : α → Multiset R → Prop) : Prop :=
  ∀ w n others, ∃ left,
    ledgerAfter hold (some (own + others)) (x w n).effects = some (left + others) ∧
      match (x w n).result with
      | .error _ => left = 0
      | .ok a => post a left

namespace Keeps

variable {x : Program W R ε α} {f : α → Program W R ε β} {post : α → Multiset R → Prop}
  {post' : β → Multiset R → Prop}

theorem pure {a : α} (h : post a own) : Keeps own (Pure.pure a : Program W R ε α) post :=
  fun _ _ _ => ⟨own, rfl, h⟩

theorem bind (hx : Keeps own x post) (hf : ∀ a left, post a left → Keeps left (f a) post') :
    Keeps own (x >>= f) post' := by
  intro w n others
  obtain ⟨left, hledger, hleft⟩ := hx w n others
  cases hrun : x w n with
  | mk result effects calls =>
      rw [hrun] at hledger hleft
      cases result with
      | error e =>
          refine ⟨left, ?_, ?_⟩
          · simpa only [Bind.bind, hrun] using hledger
          · simpa only [Bind.bind, hrun] using hleft
      | ok a =>
          obtain ⟨left', hledger', hleft'⟩ := hf a left hleft w calls others
          refine ⟨left', ?_, ?_⟩
          · simp only [Bind.bind, hrun]
            rw [ledgerAfter_append, hledger, hledger']
          · simpa only [Bind.bind, hrun] using hleft'

theorem call [Owner R α] {answer : W → Nat → Except ε α}
    (h : ∀ w n a, answer w n = .ok a → post a (releases a)) :
    Keeps 0 (Program.call answer) post := by
  intro w n others
  cases hanswer : answer w n with
  | error e =>
      refine ⟨0, ?_, ?_⟩
      · simp only [Program.call, hanswer, ledgerAfter_nil]
      · simp only [Program.call, hanswer]
  | ok a =>
      refine ⟨releases a, ?_, ?_⟩
      · simp only [Program.call, hanswer]
        rw [Multiset.zero_add, ledgerAfter_acquired]
      · simpa only [Program.call, hanswer] using h w n a hanswer

/-- The frame rule: inside its scope a value belongs to the others, and to the result after it. -/
theorem holding {γ : Type*} [Owner R γ] {v : γ}
    (h : Keeps own x fun a left => post a ((releases v : Multiset R) + left)) :
    Keeps ((releases v : Multiset R) + own) (Program.holding v x) post := by
  intro w n others
  let owned : Multiset R := releases v
  obtain ⟨left, hledger, hleft⟩ := h w n (owned + others)
  have hframe (m : Multiset R) : m + (owned + others) = owned + m + others := by
    rw [← Multiset.add_assoc, Multiset.add_comm m]
  rw [hframe] at hledger
  cases hrun : x w n with
  | mk result effects calls =>
      rw [hrun] at hledger hleft
      cases result with
      | error e =>
          cases (show left = 0 from hleft)
          refine ⟨0, ?_, ?_⟩
          · simp only [Program.holding, hrun]
            rw [ledgerAfter_append, hledger, Multiset.zero_add, ledgerAfter_released,
              Multiset.zero_add]
          · simp only [Program.holding, hrun]
      | ok a =>
          refine ⟨owned + left, ?_, ?_⟩
          · simp only [Program.holding, hrun]
            rw [hledger, hframe]
          · simpa only [Program.holding, hrun] using hleft

/-- A value that is held while the rest of the program runs. -/
theorem scope [Owner R α] {P : α → Prop}
    (hx : Keeps own x fun a left => P a ∧ left = releases a)
    (hf : ∀ a, P a → Keeps 0 (f a) fun b left => post' b ((releases a : Multiset R) + left)) :
    Keeps own (x >>= fun a => Program.holding a (f a)) post' := by
  apply hx.bind
  rintro a left ⟨hP, rfl⟩
  have hscope := (hf a hP).holding
  rwa [Multiset.add_zero] at hscope

end Keeps

end Ledger

end IoUring.Foundation
