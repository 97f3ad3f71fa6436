import Mathlib.Data.Multiset.Count
import Mathlib.Data.Multiset.MapFold
import Mathlib.Logic.Function.Basic

/-!
# Work under tickets

A table says what each ticket stands for, and every piece of work in hand names
a ticket by its key. A ticket that is not shared has at most one piece of work
at a time, and all work fits the ticket it names. So whoever takes a piece of
work may change its ticket: no other work depends on it.
-/

namespace IoUring.Foundation

variable {κ τ ω : Type*} [DecidableEq κ]

/-- The keys that pieces of work name, counted with multiplicity. -/
def keysOf (key : ω → κ) (work : Multiset ω) : Multiset κ := work.map key

omit [DecidableEq κ] in
theorem keysOf_cons (key : ω → κ) (w : ω) (work : Multiset ω) :
    keysOf key (w ::ₘ work) = key w ::ₘ keysOf key work :=
  Multiset.map_cons key w work

omit [DecidableEq κ] in
theorem keysOf_add (key : ω → κ) (work work' : Multiset ω) :
    keysOf key (work + work') = keysOf key work + keysOf key work' :=
  Multiset.map_add key work work'

structure Ticketed (key : ω → κ) (shared : κ → Prop) (fits : τ → ω → Prop) (table : κ → Option τ)
    (work : Multiset ω) : Prop where
  once : ∀ k, ¬ shared k → (keysOf key work).count k ≤ 1
  live : ∀ w ∈ work, ∃ t, table (key w) = some t ∧ fits t w

namespace Ticketed

variable {key : ω → κ} {shared : κ → Prop} {fits fits' : τ → ω → Prop} {table table' : κ → Option τ}
  {work work' : Multiset ω} {w w' : ω} {k : κ} {t : τ}

/-- The ticket of a piece of work in hand. -/
theorem fits_of (h : Ticketed key shared fits table work) (hw : w ∈ work)
    (ht : table (key w) = some t) : fits t w := by
  obtain ⟨t', ht', hfits⟩ := h.live w hw
  rw [ht] at ht'
  cases ht'
  exact hfits

/-- No second piece of work names the ticket of the one that is taken. -/
theorem others (h : Ticketed key shared fits table (w ::ₘ work)) (hw : ¬ shared (key w)) :
    key w ∉ keysOf key work := by
  have honce := h.once (key w) hw
  rw [keysOf_cons, Multiset.count_cons_self] at honce
  exact Multiset.count_eq_zero.mp (Nat.le_zero.mp (Nat.le_of_succ_le_succ honce))

/-- A fresh key is named by no work. -/
theorem fresh (h : Ticketed key shared fits table work) (hk : table k = none) :
    k ∉ keysOf key work := by
  intro hmem
  obtain ⟨w, hw, rfl⟩ := Multiset.mem_map.mp hmem
  obtain ⟨t, ht, -⟩ := h.live w hw
  rw [hk] at ht
  cases ht

/-- Any two pieces of work name different tickets, or a shared one. -/
theorem pairwise (h : Ticketed key shared fits table work) {list : List ω}
    (hlist : (list : Multiset ω) ≤ work) :
    list.Pairwise fun x y => shared (key x) ∨ key x ≠ key y := by
  rw [List.pairwise_iff_forall_sublist]
  intro x y hsub
  by_contra hneither
  obtain ⟨hshared, heq⟩ := not_or.mp hneither
  have hle : (([x, y] : List ω) : Multiset ω) ≤ work :=
    (Multiset.coe_le.mpr hsub.subperm).trans hlist
  have htwo := Multiset.count_le_of_le (key x) (Multiset.map_le_map (f := key) hle)
  have honce := h.once (key x) hshared
  rw [keysOf] at honce
  simp only [Multiset.map_coe, List.map_cons, List.map_nil, Multiset.coe_count,
    List.count_cons_self, ← not_ne_iff.mp heq] at htwo
  simp only [List.count_nil] at htwo
  omega

/-- Work may be put down, and table and world may change where the rest still fits. -/
theorem change (h : Ticketed key shared fits table work) (hsub : work' ≤ work)
    (hfits : ∀ w ∈ work', ∀ t, table (key w) = some t → fits t w →
      ∃ t', table' (key w) = some t' ∧ fits' t' w) :
    Ticketed key shared fits' table' work' where
  once k hk :=
    (Multiset.count_le_of_le k (Multiset.map_le_map hsub)).trans (h.once k hk)
  live w hw := by
    obtain ⟨t, ht, hw'⟩ := h.live w (Multiset.mem_of_le hsub hw)
    exact hfits w hw t ht hw'

/-- Work may be taken up for a shared ticket and for one that has none in hand. -/
theorem take (h : Ticketed key shared fits table work)
    (hfree : shared (key w) ∨ key w ∉ keysOf key work) (ht : table (key w) = some t)
    (hfits : fits t w) : Ticketed key shared fits table (w ::ₘ work) where
  once k hk := by
    rw [keysOf_cons]
    by_cases hkey : k = key w
    · subst hkey
      rw [Multiset.count_cons_self, Multiset.count_eq_zero.mpr (hfree.resolve_left hk)]
    · rw [Multiset.count_cons_of_ne hkey]
      exact h.once k hk
  live x hx := by
    obtain rfl | hx := Multiset.mem_cons.mp hx
    · exact ⟨t, ht, hfits⟩
    · exact h.live x hx

/-- One piece of work becomes another of the same ticket. -/
theorem replace (h : Ticketed key shared fits table (w ::ₘ work)) (hkey : key w' = key w)
    (ht : table (key w) = some t) (hfits : fits' t w')
    (hrest : ∀ x ∈ work, (¬ shared (key w) → key x ≠ key w) → ∀ t, table (key x) = some t →
      fits t x → fits' t x) :
    Ticketed key shared fits' table (w' ::ₘ work) := by
  have hne (x : ω) (hx : x ∈ work) (hshared : ¬ shared (key w)) : key x ≠ key w :=
    fun heq => h.others hshared (heq ▸ Multiset.mem_map_of_mem key hx)
  have hothers : Ticketed key shared fits' table work :=
    h.change (Multiset.le_cons_self work w) fun x hx t ht hx' =>
      ⟨t, ht, hrest x hx (hne x hx) t ht hx'⟩
  refine hothers.take ?_ (hkey ▸ ht) hfits
  rw [hkey]
  by_cases hshared : shared (key w)
  · exact .inl hshared
  · exact .inr (h.others hshared)

/-- The last work of a ticket is done: its entry may change, and new work fits the new entry. -/
theorem settle (h : Ticketed key shared fits table (w ::ₘ work)) (hw : ¬ shared (key w))
    {entry : Option τ}
    (hrest : ∀ x ∈ work, key x ≠ key w → ∀ t, table (key x) = some t → fits t x → fits' t x) :
    Ticketed key shared fits' (Function.update table (key w) entry) work := by
  have hothers := h.others hw
  refine h.change (Multiset.le_cons_self work w) ?_
  intro x hx t ht hfits
  have hne : key x ≠ key w := by
    intro heq
    apply hothers
    rw [← heq]
    exact Multiset.mem_map_of_mem key hx
  exact ⟨t, by rwa [Function.update_of_ne hne], hrest x hx hne t ht hfits⟩

/-- A new ticket changes nothing for the others. -/
theorem enter (h : Ticketed key shared fits table work) (hk : table k = none) {entry : Option τ} :
    Ticketed key shared fits (Function.update table k entry) work := by
  have hfresh := h.fresh hk
  refine h.change le_rfl ?_
  intro x hx t ht hfits
  have hne : key x ≠ k := by
    intro heq
    apply hfresh
    rw [← heq]
    exact Multiset.mem_map_of_mem key hx
  exact ⟨t, by rwa [Function.update_of_ne hne], hfits⟩

/-- Any amount of work may be taken up for shared tickets. -/
theorem takeAll (h : Ticketed key shared fits table work)
    (hnew : ∀ w ∈ work', shared (key w) ∧ ∃ t, table (key w) = some t ∧ fits t w) :
    Ticketed key shared fits table (work' + work) := by
  induction work' using Multiset.induction with
  | empty => rwa [Multiset.zero_add]
  | cons w rest ih =>
      obtain ⟨hshared, t, ht, hfits⟩ := hnew w (Multiset.mem_cons_self w rest)
      rw [Multiset.cons_add]
      exact (ih fun x hx => hnew x (Multiset.mem_cons_of_mem hx)).take (.inl hshared) ht hfits

end Ticketed

/-! ## Assignments that give nothing away twice -/

section Exclusive

variable {α : Type*} {f : κ → Option α}

/-- No two keys are assigned the same thing. -/
def Exclusive (f : κ → Option α) : Prop :=
  ∀ k k' a, f k = some a → f k' = some a → k = k'

/-- A key may be assigned what no other key has. -/
theorem Exclusive.update (h : Exclusive f) {k : κ} {o : Option α}
    (ho : ∀ k' a, k' ≠ k → o = some a → f k' ≠ some a) :
    Exclusive (Function.update f k o) := by
  intro i j a hi hj
  by_cases hik : i = k <;> by_cases hjk : j = k
  · rw [hik, hjk]
  · rw [hik, Function.update_self] at hi
    rw [Function.update_of_ne hjk] at hj
    exact absurd hj (ho j a hjk hi)
  · rw [hjk, Function.update_self] at hj
    rw [Function.update_of_ne hik] at hi
    exact absurd hi (ho i a hik hj)
  · rw [Function.update_of_ne hik] at hi
    rw [Function.update_of_ne hjk] at hj
    exact h i j a hi hj

omit [DecidableEq κ] in
/-- Others than the one that has something do not have it. -/
theorem Exclusive.ne (h : Exclusive f) {k k' : κ} {a : α} (hk : f k = some a) (hne : k' ≠ k) :
    f k' ≠ some a :=
  fun hk' => hne (h k' k a hk' hk)

end Exclusive

end IoUring.Foundation
