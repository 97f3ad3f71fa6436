import IoUring.Foundation.Tickets
import IoUring.TcpEcho.Desk
import Mathlib.Data.Multiset.Filter

/-!
# Who has which buffer and which connection

Every buffer is in the pool or belongs to one token, and buffers share no byte.
Every descriptor that was accepted belongs to one token or to a completion that
the server has not taken yet.
-/

namespace IoUring.TcpEcho

open Foundation

namespace Token

/-- The connection of a token. -/
def fd : Token → Option Int32
  | .accept => none
  | .poll fd | .read fd _ | .write fd _ _ _ => some fd

/-- The buffer that belongs to a token. -/
def buf : Token → Option UInt64
  | .accept | .poll _ => none
  | .read _ b | .write _ b _ _ => some b

end Token

namespace Tables

/-- What the token of each key has. -/
def ofTokens {α : Type} (has : Token → Option α) (t : Tables) (k : UInt64) : Option α :=
  (t.tokenAlloc k).bind has

theorem ofTokens_eq {α : Type} {has : Token → Option α} {t : Tables} {k : UInt64} {token : Token}
    (h : t.tokenAlloc k = some token) : t.ofTokens has k = has token := by
  rw [ofTokens, h, Option.bind_some]

theorem ofTokens_vacant {α : Type} {has : Token → Option α} {t : Tables} {k : UInt64}
    (h : t.tokenAlloc k = none) : t.ofTokens has k = none := by
  rw [ofTokens, h, Option.bind_none]

theorem ofTokens_setToken {α : Type} (has : Token → Option α) (t : Tables) (k : UInt64)
    (token : Option Token) :
    (t.setToken k token).ofTokens has = Function.update (t.ofTokens has) k (token.bind has) := by
  funext k'
  by_cases h : k' = k
  · subst h
    rw [ofTokens, tokenAlloc_setToken, Function.update_self, Function.update_self]
  · rw [ofTokens, tokenAlloc_setToken, Function.update_of_ne h, Function.update_of_ne h, ofTokens]

end Tables

/-! ## Buffers -/

structure Bufs (t : Tables) : Prop where
  held : ∀ k b, t.ofTokens Token.buf k = some b → ∃ a, t.bufAlloc b = some a
  once : Exclusive (t.ofTokens Token.buf)
  pooled : ∀ b ∈ t.bufpool, ∃ a, t.bufAlloc b = some a
  free : ∀ b ∈ t.bufpool, ∀ k, t.ofTokens Token.buf k ≠ some b
  nodup : t.bufpool.Nodup
  apart : ∀ b b' a a', t.bufAlloc b = some a → t.bufAlloc b' = some a' → b ≠ b' →
    Memory.Apart a bufSize a' bufSize
  owned : ∀ b a, t.bufAlloc b = some a → b ∈ t.bufpool ∨ ∃ k, t.ofTokens Token.buf k = some b

namespace Bufs

variable {t : Tables} {k : UInt64} {b : UInt64} {token : Option Token}

/-- A token with the same buffer as before, or without one as before. -/
theorem keep (h : Bufs t) (hsame : token.bind Token.buf = t.ofTokens Token.buf k) :
    Bufs (t.setToken k token) := by
  have heq : (t.setToken k token).ofTokens Token.buf = t.ofTokens Token.buf := by
    rw [Tables.ofTokens_setToken, hsame, Function.update_eq_self]
  exact {
    held := by
      rw [heq]
      exact h.held
    once := by
      rw [heq]
      exact h.once
    pooled := h.pooled
    free := by
      rw [heq]
      exact h.free
    nodup := h.nodup
    apart := h.apart
    owned := by
      rw [heq]
      exact h.owned }

/-- The last buffer of the pool goes to a token that has none. -/
theorem takePooled (h : Bufs t) {rest : List UInt64} (hpool : t.bufpool = b :: rest)
    (hnone : t.ofTokens Token.buf k = none) (hsome : token.bind Token.buf = some b) :
    Bufs ({ t with bufpool := rest }.setToken k token) := by
  have heq : ({ t with bufpool := rest }.setToken k token).ofTokens Token.buf =
      Function.update (t.ofTokens Token.buf) k (some b) := by
    rw [Tables.ofTokens_setToken, hsome]
    rfl
  have hmem : b ∈ t.bufpool := by
    rw [hpool]
    exact List.mem_cons_self
  have hrest : ∀ b' ∈ rest, b' ∈ t.bufpool := by
    rw [hpool]
    exact fun b' => List.mem_cons_of_mem b
  have hnodup := h.nodup
  rw [hpool, List.nodup_cons] at hnodup
  exact {
    held := by
      intro k' b' hk'
      rw [heq] at hk'
      by_cases hkk : k' = k
      · rw [hkk, Function.update_self] at hk'
        cases hk'
        exact h.pooled b hmem
      · rw [Function.update_of_ne hkk] at hk'
        exact h.held k' b' hk'
    once := by
      rw [heq]
      apply h.once.update
      rintro k' _ - ⟨⟩
      exact h.free b hmem k'
    pooled := fun b' hb' => h.pooled b' (hrest b' hb')
    free := by
      intro b' hb' k'
      rw [heq]
      by_cases hkk : k' = k
      · rw [hkk, Function.update_self]
        rintro ⟨⟩
        exact hnodup.1 hb'
      · rw [Function.update_of_ne hkk]
        exact h.free b' (hrest b' hb') k'
    nodup := hnodup.2
    apart := h.apart
    owned := by
      intro b' a ha
      rw [heq]
      obtain hb' | ⟨k', hk'⟩ := h.owned b' a ha
      · rw [hpool] at hb'
        obtain rfl | hb' := List.mem_cons.mp hb'
        · exact .inr ⟨k, Function.update_self ..⟩
        · exact .inl hb'
      · refine .inr ⟨k', ?_⟩
        rw [Function.update_of_ne ?_]
        · exact hk'
        · rintro rfl
          rw [hnone] at hk'
          cases hk' }

/-- A new buffer goes to a token that has none. -/
theorem takeNew (h : Bufs t) {fresh : Fresh} (hfresh : fresh.Vacant t)
    (hnone : t.ofTokens Token.buf k = none) (hsome : token.bind Token.buf = some fresh.buf) :
    Bufs ({ t with
      bufAlloc := Function.update t.bufAlloc fresh.buf (some fresh.addr) }.setToken k token) := by
  have heq : ({ t with bufAlloc := Function.update t.bufAlloc fresh.buf (some fresh.addr)
      }.setToken k token).ofTokens Token.buf =
        Function.update (t.ofTokens Token.buf) k (some fresh.buf) := by
    rw [Tables.ofTokens_setToken, hsome]
    rfl
  have hold {b' a : UInt64} (ha : t.bufAlloc b' = some a) : b' ≠ fresh.buf := by
    rintro rfl
    rw [hfresh.buf] at ha
    cases ha
  have hkeep {b' a : UInt64} (ha : t.bufAlloc b' = some a) :
      Function.update t.bufAlloc fresh.buf (some fresh.addr) b' = some a := by
    rwa [Function.update_of_ne (hold ha)]
  exact {
    held := by
      intro k' b' hk'
      rw [heq] at hk'
      by_cases hkk : k' = k
      · rw [hkk, Function.update_self] at hk'
        cases hk'
        exact ⟨fresh.addr, Function.update_self ..⟩
      · rw [Function.update_of_ne hkk] at hk'
        obtain ⟨a, ha⟩ := h.held k' b' hk'
        exact ⟨a, hkeep ha⟩
    once := by
      rw [heq]
      apply h.once.update
      rintro k' _ - ⟨⟩ hk'
      obtain ⟨a, ha⟩ := h.held k' _ hk'
      exact hold ha rfl
    pooled := by
      intro b' hb'
      obtain ⟨a, ha⟩ := h.pooled b' hb'
      exact ⟨a, hkeep ha⟩
    free := by
      intro b' hb' k'
      rw [heq]
      by_cases hkk : k' = k
      · rw [hkk, Function.update_self]
        rintro ⟨⟩
        obtain ⟨a, ha⟩ := h.pooled _ hb'
        exact hold ha rfl
      · rw [Function.update_of_ne hkk]
        exact h.free b' hb' k'
    nodup := h.nodup
    apart := by
      intro b₁ b₂ a₁ a₂ h₁ h₂ hne
      simp only [Tables.setToken] at h₁ h₂
      by_cases hb₁ : b₁ = fresh.buf <;> by_cases hb₂ : b₂ = fresh.buf
      · exact absurd (hb₁.trans hb₂.symm) hne
      · rw [hb₁, Function.update_self] at h₁
        rw [Function.update_of_ne hb₂] at h₂
        cases h₁
        exact (hfresh.addr b₂ a₂ h₂).symm
      · rw [hb₂, Function.update_self] at h₂
        rw [Function.update_of_ne hb₁] at h₁
        cases h₂
        exact hfresh.addr b₁ a₁ h₁
      · rw [Function.update_of_ne hb₁] at h₁
        rw [Function.update_of_ne hb₂] at h₂
        exact h.apart b₁ b₂ a₁ a₂ h₁ h₂ hne
    owned := by
      intro b' a ha
      rw [heq]
      simp only [Tables.setToken] at ha
      by_cases hb' : b' = fresh.buf
      · exact .inr ⟨k, by rw [hb', Function.update_self]⟩
      · rw [Function.update_of_ne hb'] at ha
        obtain hpool | ⟨k', hk'⟩ := h.owned b' a ha
        · exact .inl hpool
        · refine .inr ⟨k', ?_⟩
          rw [Function.update_of_ne ?_]
          · exact hk'
          · rintro rfl
            rw [hnone] at hk'
            cases hk' }

/-- A token gives its buffer back to the pool. -/
theorem release (h : Bufs t) (hb : t.ofTokens Token.buf k = some b)
    (hnone : token.bind Token.buf = none) :
    Bufs ({ t with bufpool := b :: t.bufpool }.setToken k token) := by
  have heq : ({ t with bufpool := b :: t.bufpool }.setToken k token).ofTokens Token.buf =
      Function.update (t.ofTokens Token.buf) k none := by
    rw [Tables.ofTokens_setToken, hnone]
    rfl
  have hless {k' b' : UInt64} (hk' : Function.update (t.ofTokens Token.buf) k none k' = some b') :
      k' ≠ k ∧ t.ofTokens Token.buf k' = some b' := by
    by_cases hkk : k' = k
    · rw [hkk, Function.update_self] at hk'
      cases hk'
    · exact ⟨hkk, by rwa [Function.update_of_ne hkk] at hk'⟩
  exact {
    held := by
      intro k' b' hk'
      rw [heq] at hk'
      exact h.held k' b' (hless hk').2
    once := by
      rw [heq]
      apply h.once.update
      simp
    pooled := by
      intro b' hb'
      obtain rfl | hb' := List.mem_cons.mp hb'
      · exact h.held k b' hb
      · exact h.pooled b' hb'
    free := by
      intro b' hb' k' hk'
      rw [heq] at hk'
      obtain ⟨hne, hk'⟩ := hless hk'
      obtain rfl | hb' := List.mem_cons.mp hb'
      · exact h.once.ne hb hne hk'
      · exact h.free b' hb' k' hk'
    nodup := List.nodup_cons.mpr ⟨fun hmem => h.free b hmem k hb, h.nodup⟩
    apart := h.apart
    owned := by
      intro b' a ha
      rw [heq]
      obtain hpool | ⟨k', hk'⟩ := h.owned b' a ha
      · exact .inl (List.mem_cons_of_mem b hpool)
      · by_cases hkk : k' = k
        · rw [hkk, hb] at hk'
          cases hk'
          exact .inl List.mem_cons_self
        · refine .inr ⟨k', ?_⟩
          rwa [Function.update_of_ne hkk] }

end Bufs

/-! ## Descriptors -/

/-- The descriptor in the completion of an accept request. -/
def arrival (k₀ : UInt64) : Job → Option Int32
  | .request _ => none
  | .result cqe => if cqe.userData = k₀ ∧ 0 ≤ cqe.res then some cqe.res else none

/-- The descriptors in completions that the server has not taken. -/
def arrivals (k₀ : UInt64) (jobs : Multiset Job) : Multiset Int32 := jobs.filterMap (arrival k₀)

structure Fds (k₀ : UInt64) (t : Tables) (jobs : Multiset Job) (opened : Finset Int32) :
    Prop where
  isOpen : ∀ k fd, t.ofTokens Token.fd k = some fd → fd ∈ opened
  once : Exclusive (t.ofTokens Token.fd)
  arrived : ∀ fd ∈ arrivals k₀ jobs, fd ∈ opened ∧ ∀ k, t.ofTokens Token.fd k ≠ some fd
  nodup : (arrivals k₀ jobs).Nodup

section Arrivals

variable {k₀ : UInt64} {job : Job} {jobs : Multiset Job} {fd : Int32}

theorem arrivals_cons_none (h : arrival k₀ job = none) :
    arrivals k₀ (job ::ₘ jobs) = arrivals k₀ jobs :=
  Multiset.filterMap_cons_none job jobs h

theorem arrivals_cons_some (h : arrival k₀ job = some fd) :
    arrivals k₀ (job ::ₘ jobs) = fd ::ₘ arrivals k₀ jobs :=
  Multiset.filterMap_cons_some _ job jobs h

theorem arrival_of_ne (h : job.key ≠ k₀) : arrival k₀ job = none := by
  cases job with
  | request => rfl
  | result cqe => exact if_neg fun hcqe => h hcqe.1

theorem arrivals_le (k₀ : UInt64) (job : Job) (jobs : Multiset Job) :
    arrivals k₀ jobs ≤ arrivals k₀ (job ::ₘ jobs) :=
  Multiset.filterMap_le_filterMap _ (Multiset.le_cons_self jobs job)

end Arrivals

namespace Fds

variable {k₀ k : UInt64} {t t' : Tables} {jobs jobs' : Multiset Job} {opened : Finset Int32}
  {fd : Int32} {token : Option Token}

/-- Completions that have been taken bring nothing any more. -/
theorem ofLe (h : Fds k₀ t jobs opened) (hle : arrivals k₀ jobs' ≤ arrivals k₀ jobs) :
    Fds k₀ t jobs' opened where
  isOpen := h.isOpen
  once := h.once
  arrived fd hfd := h.arrived fd (Multiset.mem_of_le hle hfd)
  nodup := Multiset.nodup_of_le hle h.nodup

/-- Nothing but the tokens matters. -/
theorem ofTokens (h : Fds k₀ t jobs opened) (heq : t'.tokenAlloc = t.tokenAlloc) :
    Fds k₀ t' jobs opened := by
  have hof : t'.ofTokens Token.fd = t.ofTokens Token.fd := by
    funext k
    rw [Tables.ofTokens, heq, Tables.ofTokens]
  exact {
    isOpen := by
      rw [hof]
      exact h.isOpen
    once := by
      rw [hof]
      exact h.once
    arrived := by
      rw [hof]
      exact h.arrived
    nodup := h.nodup }

/-- A token with the same connection as before, or without one as before. -/
theorem keep (h : Fds k₀ t jobs opened) (hsame : token.bind Token.fd = t.ofTokens Token.fd k) :
    Fds k₀ (t.setToken k token) jobs opened := by
  have heq : (t.setToken k token).ofTokens Token.fd = t.ofTokens Token.fd := by
    rw [Tables.ofTokens_setToken, hsame, Function.update_eq_self]
  exact {
    isOpen := by
      rw [heq]
      exact h.isOpen
    once := by
      rw [heq]
      exact h.once
    arrived := by
      rw [heq]
      exact h.arrived
    nodup := h.nodup }

/-- A connection arrives under a new descriptor. -/
theorem arrive (h : Fds k₀ t jobs opened) (hnew : fd ∉ opened)
    (heq : arrivals k₀ jobs' = fd ::ₘ arrivals k₀ jobs) :
    Fds k₀ t jobs' (insert fd opened) where
  isOpen k fd' hk := Finset.mem_insert_of_mem (h.isOpen k fd' hk)
  once := h.once
  arrived fd' hfd' := by
    rw [heq] at hfd'
    obtain rfl | hfd' := Multiset.mem_cons.mp hfd'
    · exact ⟨Finset.mem_insert_self fd' opened, fun k hk => hnew (h.isOpen k fd' hk)⟩
    · obtain ⟨hopen, hfree⟩ := h.arrived fd' hfd'
      exact ⟨Finset.mem_insert_of_mem hopen, hfree⟩
  nodup := by
    rw [heq, Multiset.nodup_cons]
    exact ⟨fun hmem => hnew (h.arrived fd hmem).1, h.nodup⟩

/-- A connection gets its token. -/
theorem adopt (h : Fds k₀ t jobs opened) (heq : arrivals k₀ jobs = fd ::ₘ arrivals k₀ jobs')
    (hsome : token.bind Token.fd = some fd) : Fds k₀ (t.setToken k token) jobs' opened := by
  have hof := Tables.ofTokens_setToken Token.fd t k token
  have hfirst := h.arrived fd (heq ▸ Multiset.mem_cons_self fd _)
  have hnodup := h.nodup
  rw [heq, Multiset.nodup_cons] at hnodup
  rw [hsome] at hof
  exact {
    isOpen := by
      intro k' fd' hk'
      rw [hof] at hk'
      by_cases hkk : k' = k
      · rw [hkk, Function.update_self] at hk'
        cases hk'
        exact hfirst.1
      · rw [Function.update_of_ne hkk] at hk'
        exact h.isOpen k' fd' hk'
    once := by
      rw [hof]
      apply h.once.update
      rintro k' _ - ⟨⟩
      exact hfirst.2 k'
    arrived := by
      intro fd' hfd'
      obtain ⟨hopen, hfree⟩ := h.arrived fd' (heq ▸ Multiset.mem_cons_of_mem hfd')
      refine ⟨hopen, fun k' => ?_⟩
      rw [hof]
      by_cases hkk : k' = k
      · rw [hkk, Function.update_self]
        rintro ⟨⟩
        exact hnodup.1 hfd'
      · rw [Function.update_of_ne hkk]
        exact hfree k'
    nodup := hnodup.2 }

/-- A connection is closed, and its token is gone. -/
theorem close (h : Fds k₀ t jobs opened) (hfd : t.ofTokens Token.fd k = some fd) :
    Fds k₀ (t.setToken k none) jobs (opened.erase fd) := by
  have hof := Tables.ofTokens_setToken Token.fd t k none
  rw [Option.bind_none] at hof
  exact {
    isOpen := by
      intro k' fd' hk'
      rw [hof] at hk'
      by_cases hkk : k' = k
      · rw [hkk, Function.update_self] at hk'
        cases hk'
      · rw [Function.update_of_ne hkk] at hk'
        refine Finset.mem_erase.mpr ⟨?_, h.isOpen k' fd' hk'⟩
        rintro rfl
        exact h.once.ne hfd hkk hk'
    once := by
      rw [hof]
      apply h.once.update
      simp
    arrived := by
      intro fd' hfd'
      obtain ⟨hopen, hfree⟩ := h.arrived fd' hfd'
      refine ⟨Finset.mem_erase.mpr ⟨?_, hopen⟩, fun k' => ?_⟩
      · rintro rfl
        exact hfree k hfd
      · rw [hof]
        by_cases hkk : k' = k
        · rw [hkk, Function.update_self]
          simp
        · rw [Function.update_of_ne hkk]
          exact hfree k'
    nodup := h.nodup }

end Fds

end IoUring.TcpEcho
