import Mathlib.Data.List.Basic

/-!
# Memory behind a store buffer

One party's stores wait in order before they reach the shared memory. The party
sees memory as if all of them had been made; the other parties see only what
has been drained. A fence waits until nothing is left to drain.
-/

namespace IoUring.Foundation

/-- The shared memory, and the stores that have not reached it, oldest first. -/
structure StoreBuffer (M σ : Type*) where
  mem : M
  buf : List σ

namespace StoreBuffer

variable {M σ β : Type*} (apply : M → σ → M)

/-- The memory as the storing party sees it. -/
def view (b : StoreBuffer M σ) : M := b.buf.foldl apply b.mem

def store (b : StoreBuffer M σ) (s : σ) : StoreBuffer M σ :=
  { b with buf := b.buf ++ [s] }

/-- The oldest store reaches memory. -/
def drain : StoreBuffer M σ → Option (StoreBuffer M σ)
  | ⟨_, []⟩ => none
  | ⟨mem, s :: rest⟩ => some ⟨apply mem s, rest⟩

@[simp] theorem view_store (b : StoreBuffer M σ) (s : σ) :
    (b.store s).view apply = apply (b.view apply) s := by
  simp [view, store]

/-- Draining is not visible to the storing party. -/
theorem view_drain {b b' : StoreBuffer M σ} (h : b.drain apply = some b') :
    b'.view apply = b.view apply := by
  obtain ⟨mem, buf⟩ := b
  cases buf with
  | nil => cases h
  | cons s rest =>
      obtain rfl := Option.some.inj h
      rfl

/-- What no store touches, the storing party reads from memory. -/
theorem view_keeps {f : M → β} (hf : ∀ m s, f (apply m s) = f m) (b : StoreBuffer M σ) :
    f (b.view apply) = f b.mem := by
  obtain ⟨mem, buf⟩ := b
  induction buf generalizing mem with
  | nil => rfl
  | cons s rest ih => exact (ih (apply mem s)).trans (hf mem s)

end StoreBuffer

end IoUring.Foundation
