import IoUring.Foundation.Progress
import IoUring.Ring.Conservation

/-!
# Every request comes back

What is conserved also arrives, if every party does its share: the kernel
consumes and completes, the application calls and makes room. What is left to
the code is the overflow list. Its completions leave it in their order, but only
through a call that has seen the bit; and as long as they wait nothing else is
posted, so that the room the application has made is still there.
-/

namespace IoUring.Ring

open Filter Foundation Submit

variable {E C : Type} [Squeue.EntryMarker E] [Cqueue.EntryMarker C] {s : Submitter}
  {bs bc : Nat} {l : Ledger E C} {σ σ' : State E C} {event : Event E C}

/-! ## Nothing is taken back -/

section Grow

omit [Squeue.EntryMarker E] [Cqueue.EntryMarker C]

namespace Ledger

theorem published_grows (l : Ledger E C) (event : Event E C) :
    l.sq.published <+: (l.record event).sq.published := by
  cases event with
  | sq event =>
      cases event with
      | published | dropped => exact List.prefix_append _ _
      | borrowed | pushed | refused | loaded | leaked | read => exact List.prefix_rfl
  | cq | flushed | silent => exact List.prefix_rfl

theorem consumed_grows (l : Ledger E C) (event : Event E C) :
    l.sq.consumed <+: (l.record event).sq.consumed := by
  cases event with
  | sq event =>
      cases event with
      | read => exact List.prefix_append _ _
      | borrowed | pushed | refused | published | loaded | dropped | leaked =>
          exact List.prefix_rfl
  | cq | flushed | silent => exact List.prefix_rfl

theorem posted_grows (l : Ledger E C) (event : Event E C) :
    l.cq.posted <+: (l.record event).cq.posted := by
  cases event with
  | cq event =>
      cases event with
      | posted => exact List.prefix_append _ _
      | borrowed | returned | published | loaded | dropped => exact List.prefix_rfl
  | flushed moved =>
      rw [record, Cqueue.Ledger.posts_posted]
      exact List.prefix_append _ _
  | sq | silent => exact List.prefix_rfl

end Ledger

end Grow

/-- All completions so far, in the order in which they reach the ring. -/
def arrived (l : Ledger E C) (σ : State E C) : List C := l.cq.posted ++ σ.overflow

/-- A completion is posted directly only if none waits, and the list is moved from its front. -/
theorem arrived_grows (l : Ledger E C) (h : Step s σ event σ') :
    arrived l σ <+: arrived (l.record event) σ' := by
  cases h with
  | completion _ happ =>
      simp only [arrived, Ledger.record, l.cq.record_posted happ]
      exact List.prefix_rfl
  | flush _ heq =>
      obtain ⟨rfl, -⟩ := flush_moves heq
      simp only [arrived, Ledger.record, Cqueue.Ledger.posts_posted, List.append_assoc]
      exact List.prefix_rfl
  | complete =>
      simp only [arrived, Ledger.record, Cqueue.Ledger.record, List.append_nil]
      exact List.prefix_append _ _
  | completeOverflow =>
      simp only [arrived, Ledger.record, ← List.append_assoc]
      exact List.prefix_append _ _
  | _ => exact List.prefix_rfl

theorem requests_le {a b : List E} (h : a <+: b) : requests a ≤ requests b := by
  obtain ⟨rest, rfl⟩ := h
  rw [requests_append]
  exact Multiset.le_add_right _ _

theorem completions_le {a b : List C} (h : a <+: b) : completions a ≤ completions b := by
  obtain ⟨rest, rfl⟩ := h
  rw [completions_append]
  exact Multiset.le_add_right _ _

/-! ## A call consumes what was published before it -/

/-- What a call without SQPOLL has loaded covers the first `m` entries. -/
def Covers (base m consumed : Nat) : Pc → Prop
  | .headLoaded _ head => head = .ofNat (base + consumed)
  | .lenLoaded _ len | .overflowLoaded _ len _ => m ≤ consumed + len.toNat ∧ len.toNat < 2 ^ 32
  | .submitting _ left => m ≤ consumed + left
  | .idle | .called _ | .reaping _ => True

/-- The length that a call loads, if nothing is consumed between the two loads. -/
theorem Inv.sqLen_eq (h : Inv bs bc l σ) {head : UInt32}
    (hhead : head = .ofNat (bs + l.sq.consumed.length)) :
    (sqLen head σ.sq.tail).toNat = l.sq.published.length - l.sq.consumed.length ∧
      (sqLen head σ.sq.tail).toNat < 2 ^ 32 := by
  obtain ⟨c, hsq⟩ := h.sq
  have hle := hsq.consumed_le
  have hpub := l.sq.published_le
  have hcached := hsq.cached_le
  have hroom := hsq.room
  have hslots := σ.sq.slots_le
  have hlen : (sqLen head σ.sq.tail).toNat = l.sq.published.length - l.sq.consumed.length := by
    rw [sqLen, UInt32.toNat_toUInt64, hhead, hsq.tail_eq,
      toNat_ofNat_sub_ofNat (by omega) (by omega)]
    omega
  exact ⟨hlen, by omega⟩

/-- The step lemma: the kernel consumes inside the call only, so what the call covers stays
covered. -/
theorem Covers.step (hpoll : s.params.isSetupSqpoll = false) (hinv : Inv bs bc l σ) {m : Nat}
    (hm : m ≤ l.sq.published.length) (h : Covers bs m l.sq.consumed.length σ.pc)
    (hstep : Step s σ event σ') :
    Covers bs m (l.record event).sq.consumed.length σ'.pc := by
  have hhead : σ.sq.head = .ofNat (bs + l.sq.consumed.length) := by
    obtain ⟨c, hsq⟩ := hinv.sq
    exact hsq.head_eq
  cases hstep with
  | submission _ happ =>
      simp only [Ledger.record, l.sq.record_consumed happ]
      exact h
  | completion | complete | completeOverflow | otherFlags => exact h
  | call | returnOk | submitted | flush | leave => trivial
  | loadHead => exact hhead
  | loadTail =>
      obtain ⟨hlen, hlt⟩ := hinv.sqLen_eq h
      refine ⟨?_, hlt⟩
      change m ≤ l.sq.consumed.length + _
      rw [hlen]
      omega
  | loadOverflow => exact h
  | enter heq =>
      obtain ⟨hcovered, hlt⟩ := h
      rw [s.finish_eq] at heq
      split at heq
      · cases heq
      · obtain rfl := Outcome.enter.inj heq
        simp only [Covers, Ledger.record, Submitter.enter_enterFlags]
        rw [UInt64.toNat_toUInt32, Nat.mod_eq_of_lt hlt]
        exact hcovered
  | consume =>
      simp only [Covers, Ledger.record, Squeue.Ledger.record, List.length_append,
        List.length_singleton] at h ⊢
      omega
  | poll hset =>
      rw [hpoll] at hset
      cases hset

/-! ## A call moves the overflow list -/

/-- A call that has not loaded the flags word yet, or has seen the overflow bit. -/
def Alerted : Pc → Prop
  | .called _ | .headLoaded _ _ | .lenLoaded _ _ => True
  | .overflowLoaded _ _ f1 => sqCqOverflow f1 = true
  | .submitting call _ | .reaping call => call.flag &&& Sys.ioringEnterGetevents ≠ 0
  | .idle => False

/-- Completions wait although all that was posted has been taken out of the ring. -/
structure Waiting (bs bc n : Nat) (l : Ledger E C) (σ : State E C) : Prop where
  inv : Inv bs bc l σ
  emptied : ∃ t, Cqueue.Inv bc l.cq l.cq.posted.length t σ.cq σ.cqApp
  overflow_ne : σ.overflow ≠ []
  posted_eq : l.cq.posted.length = n

omit [Squeue.EntryMarker E] [Cqueue.EntryMarker C] in
/-- An empty ring has room. -/
theorem room_of_emptied {cq : Cqueue.Inner C} {app : Cqueue.App} {lc : Cqueue.Ledger C} {t : Nat}
    (h : Cqueue.Inv bc lc lc.posted.length t cq app) (cqe : C) :
    ∃ cq', cq.kernelPost cqe = some cq' := by
  have hslots := cq.slots_pos
  refine ⟨_, if_pos ?_⟩
  rw [UInt32.lt_iff_toNat_lt, h.posted_eq, Nat.sub_self]
  exact hslots

omit [Squeue.EntryMarker E] [Cqueue.EntryMarker C] in
/-- A ring whose posted completions are all given back stays so until the next post. -/
theorem emptied_step {lc : Cqueue.Ledger C} {t : Nat} {r r' : Cqueue.State C}
    {shown : Cqueue.Event C} (h : Cqueue.Inv bc lc lc.posted.length t r.q r.app)
    (hstep : Cqueue.Step r shown r') (happ : ∀ cqe, shown ≠ .posted cqe) :
    ∃ t', Cqueue.Inv bc (lc.record shown) (lc.record shown).posted.length t' r'.q r'.app := by
  obtain ⟨t', h'⟩ := h.step_freed hstep
  have hall := Nat.le_antisymm h.returned_prefix.length_le h.freed_le
  have hfreed : lc.freed lc.posted.length shown = lc.posted.length := by
    cases shown with
    | published | dropped => exact hall
    | borrowed | returned | loaded | posted => rfl
  refine ⟨t', ?_⟩
  rw [hfreed] at h'
  rwa [lc.record_posted happ]

namespace Waiting

variable {n : Nat}

/-- A flush into an empty ring moves at least one of them. -/
theorem flush_posts (h : Waiting bs bc n l σ) {moved left : List C} {cq' : Cqueue.Inner C}
    (heq : flush σ.cq σ.overflow = (moved, left, cq')) :
    n < (l.record (.flushed moved)).cq.posted.length := by
  obtain ⟨-, ⟨t, hcq⟩, hne, hposted⟩ := h
  obtain ⟨cqe, rest, hoverflow⟩ := List.exists_cons_of_ne_nil hne
  obtain ⟨cq₁, hroom⟩ := room_of_emptied hcq cqe
  rw [hoverflow] at heq
  obtain ⟨hnone, -⟩ | ⟨_, moved₁, -, -, rfl⟩ := flush_cons heq
  · cases hnone.symm.trans hroom
  · simp only [Ledger.record, Cqueue.Ledger.posts_posted, List.length_append, List.length_cons]
    omega

/-- One step: something is posted, or the completions still wait. -/
theorem step (h : Waiting bs bc n l σ) (hstep : Step s σ event σ') :
    n < (l.record event).cq.posted.length ∨ Waiting bs bc n (l.record event) σ' := by
  have hinv' := h.inv.step hstep
  have hposts := @h.flush_posts
  obtain ⟨hinv, ⟨t, hcq⟩, hne, hposted⟩ := h
  cases hstep with
  | completion hcqStep happ =>
      refine .inr ⟨hinv', emptied_step hcq hcqStep happ, hne, ?_⟩
      simp only [Ledger.record, l.cq.record_posted happ]
      exact hposted
  | flush _ heq => exact .inl (hposts heq)
  | complete => exact absurd rfl hne
  | completeOverflow => exact .inr ⟨hinv', ⟨t, hcq⟩, by simp, hposted⟩
  | _ => exact .inr ⟨hinv', ⟨t, hcq⟩, hne, hposted⟩

/-- A call that is alerted does not come back while they wait. -/
theorem alerted (hnodrop : s.params.isFeatureNodrop = true) (h : Waiting bs bc n l σ)
    (halert : Alerted σ.pc) (hstep : Step s σ event σ') :
    n < (l.record event).cq.posted.length ∨ Alerted σ'.pc := by
  cases hstep with
  | call | loadHead | loadTail => exact .inr trivial
  | loadOverflow => exact .inr (h.inv.bit.mpr h.overflow_ne)
  | @returnOk _ _ _ _ _ _ req len f1 res heq =>
      obtain ⟨call, henter, -⟩ := finish_of_overflow hnodrop len halert _ req
      cases heq.symm.trans henter
  | @enter _ _ _ _ _ _ req len f1 call heq =>
      obtain ⟨call', henter, hflag⟩ := finish_of_overflow hnodrop len halert _ req
      cases heq.symm.trans henter
      exact .inr hflag
  | flush _ heq => exact .inl (h.flush_posts heq)
  | leave hzero => exact absurd hzero halert
  | _ => exact .inr halert

end Waiting

/-- A call that begins is alerted. -/
theorem alerted_of_begins (hstep : Step s σ event σ') (hidle : σ.pc = .idle)
    (hleaves : σ'.pc ≠ .idle) : Alerted σ'.pc := by
  cases hstep with
  | call => trivial
  | submission | completion | poll | complete | completeOverflow | otherFlags =>
      exact absurd hidle hleaves
  | _ => cases hidle

/-! ## Endless runs -/

section Course

variable {sq : Squeue.Inner E} {cq : Cqueue.Inner C}
  (c : Course (Step s) (⟨sq, .none, cq, .none, [], [], .idle⟩ : State E C))

/-- The ledgers at an instant. -/
def ledgerAt (i : Nat) : Ledger E C := Ledger.of sq cq (c.labels i)

theorem ledgerAt_succ (i : Nat) : ledgerAt c (i + 1) = (ledgerAt c i).record (c.label i) :=
  c.ledgerAfter_succ Ledger.record (Ledger.start sq cq) i

/-- What the parties owe each other: an application that calls again and again, and takes all
completions out of the ring and gives their slots back; a kernel that again and again consumes
all that a call submits, or whose thread gets to every entry, and that completes what it has
consumed. -/
structure Fair : Prop where
  calls : ∃ᶠ i in atTop, (c.state i).pc = .idle ∧ (c.state (i + 1)).pc ≠ .idle
  takes : ∀ i, ∃ j ≥ i, (ledgerAt c i).cq.posted.length +
    ((c.state j).cq.tail - (c.state j).cq.head).toNat ≤ (ledgerAt c j).cq.posted.length
  consumes : if s.params.isSetupSqpoll then
      ∀ i, ∃ j ≥ i, (ledgerAt c i).sq.published.length ≤ (ledgerAt c j).sq.consumed.length
    else ∃ᶠ i in atTop, ∃ call, (c.state i).pc = .submitting call 0 ∧
      (c.state (i + 1)).pc = .reaping call
  completes : ∀ i, ∃ j ≥ i, requests (ledgerAt c i).sq.consumed ≤
    completions (c.state j).overflow + completions (ledgerAt c j).cq.posted

variable {c}

theorem published_mono {i j : Nat} (hij : i ≤ j) :
    (ledgerAt c i).sq.published <+: (ledgerAt c j).sq.published :=
  prefix_of_le (f := fun i => (ledgerAt c i).sq.published)
    (fun i => ledgerAt_succ c i ▸ (ledgerAt c i).published_grows _) hij

theorem consumed_mono {i j : Nat} (hij : i ≤ j) :
    (ledgerAt c i).sq.consumed <+: (ledgerAt c j).sq.consumed :=
  prefix_of_le (f := fun i => (ledgerAt c i).sq.consumed)
    (fun i => ledgerAt_succ c i ▸ (ledgerAt c i).consumed_grows _) hij

theorem posted_mono {i j : Nat} (hij : i ≤ j) :
    (ledgerAt c i).cq.posted <+: (ledgerAt c j).cq.posted :=
  prefix_of_le (f := fun i => (ledgerAt c i).cq.posted)
    (fun i => ledgerAt_succ c i ▸ (ledgerAt c i).posted_grows _) hij

theorem arrived_mono {i j : Nat} (hij : i ≤ j) :
    arrived (ledgerAt c i) (c.state i) <+: arrived (ledgerAt c j) (c.state j) :=
  prefix_of_le (f := fun i => arrived (ledgerAt c i) (c.state i))
    (fun i => ledgerAt_succ c i ▸ arrived_grows _ (c.step i)) hij

/-- A call that begins while they wait moves some of them before it comes back. -/
theorem Waiting.call_posts (hnodrop : s.params.isFeatureNodrop = true) (hfair : Fair c) {n i : Nat}
    (hwaits : Waiting sq.head.toNat cq.head.toNat n (ledgerAt c i) (c.state i))
    (hidle : (c.state i).pc = .idle) (hleaves : (c.state (i + 1)).pc ≠ .idle) :
    ∃ j > i, n < (ledgerAt c j).cq.posted.length ∧
      ∀ k > i, k < j → Alerted (c.state k).pc := by
  have hstay (i : Nat) (h : Waiting sq.head.toNat cq.head.toNat n (ledgerAt c i) (c.state i) ∧
      Alerted (c.state i).pc) :
      n < (ledgerAt c (i + 1)).cq.posted.length ∨
        Waiting sq.head.toNat cq.head.toNat n (ledgerAt c (i + 1)) (c.state (i + 1)) ∧
          Alerted (c.state (i + 1)).pc := by
    rw [ledgerAt_succ]
    rcases h.1.step (c.step i) with hposted | hwaits'
    · exact .inl hposted
    · exact (h.1.alerted hnodrop h.2 (c.step i)).imp_right fun halert => ⟨hwaits', halert⟩
  -- it is inside the call, while the next one is still to begin
  have hleads : LeadsTo
      (fun i => Waiting sq.head.toNat cq.head.toNat n (ledgerAt c i) (c.state i) ∧
        Alerted (c.state i).pc)
      fun i => n < (ledgerAt c i).cq.posted.length := by
    refine LeadsTo.of_recurs hstay (hfair.calls.mono fun _ h => h.1) ?_
    rintro i ⟨-, halert⟩ hidle
    rw [hidle] at halert
    exact halert
  have hnext := hwaits.step (c.step i)
  rw [← ledgerAt_succ] at hnext
  rcases hnext with hposted | hwaits'
  · exact ⟨i + 1, Nat.lt_succ_self i, hposted, fun k hik hk => by omega⟩
  · obtain ⟨j, hij, hposted, huntil⟩ := LeadsTo.holds_until hstay hleads
      ⟨hwaits', alerted_of_begins (c.step i) hidle hleaves⟩
    exact ⟨j, hij, hposted, fun k hik hk => (huntil k hik hk).2⟩

/-- Completions that wait in the list lead to a post. -/
theorem Waiting.leads (hnodrop : s.params.isFeatureNodrop = true) (hfair : Fair c) (n : Nat) :
    LeadsTo (fun i => Waiting sq.head.toNat cq.head.toNat n (ledgerAt c i) (c.state i))
      fun i => n < (ledgerAt c i).cq.posted.length := by
  intro i hwaits
  rcases LeadsTo.or_stays
    (P := fun k => Waiting sq.head.toNat cq.head.toNat n (ledgerAt c k) (c.state k))
    (Q := fun k => n < (ledgerAt c k).cq.posted.length)
    (fun i h => ledgerAt_succ c i ▸ h.step (c.step i)) hwaits with hposted | hstays
  · exact hposted
  · obtain ⟨j, hij, hidle, hleaves⟩ := frequently_atTop.mp hfair.calls i
    obtain ⟨k, hjk, hposted, -⟩ := (hstays j hij).call_posts hnodrop hfair hidle hleaves
    exact ⟨k, by omega, hposted⟩

variable (hinv : ∀ i, Inv sq.head.toNat cq.head.toNat (ledgerAt c i) (c.state i))
include hinv

/-- Every published entry is consumed. -/
theorem Fair.consumed (hfair : Fair c) (i : Nat) :
    ∃ j ≥ i, (ledgerAt c i).sq.published <+: (ledgerAt c j).sq.consumed := by
  have hcounts : ∃ j ≥ i,
      (ledgerAt c i).sq.published.length ≤ (ledgerAt c j).sq.consumed.length := by
    have hconsumes := hfair.consumes
    split at hconsumes
    · exact hconsumes i
    · rename_i hpoll
      -- the second full submission belongs to a call that began after the first
      obtain ⟨a, hia, call, -, hreaping⟩ := frequently_atTop.mp hconsumes i
      obtain ⟨b, hab, call', hsubmitted, -⟩ := frequently_atTop.mp hconsumes (a + 1)
      have hcovers : ∀ b ≥ a + 1, Covers sq.head.toNat (ledgerAt c i).sq.published.length
          (ledgerAt c b).sq.consumed.length (c.state b).pc := by
        intro b hab
        induction b, hab using Nat.le_induction with
        | base =>
            rw [hreaping]
            trivial
        | succ b hab ih =>
            rw [ledgerAt_succ]
            exact ih.step (Bool.eq_false_iff.mpr hpoll) (hinv b)
              (published_mono (by omega)).length_le (c.step b)
      have hall := hcovers b hab
      rw [hsubmitted] at hall
      exact ⟨b, by omega, hall⟩
  obtain ⟨j, hij, hle⟩ := hcounts
  obtain ⟨p, hsq⟩ := (hinv j).sq
  exact ⟨j, hij, List.prefix_of_prefix_length_le (published_mono hij) hsq.consumed_prefix hle⟩

/-- Every posted completion is returned, and its slot given back. -/
theorem Fair.given (hfair : Fair c) (i : Nat) :
    ∃ j ≥ i, ∃ f t, Cqueue.Inv cq.head.toNat (ledgerAt c j).cq f t (c.state j).cq
      (c.state j).cqApp ∧ (ledgerAt c i).cq.posted.length ≤ f := by
  obtain ⟨j, hij, htakes⟩ := hfair.takes i
  obtain ⟨f, t, hcq⟩ := (hinv j).cq
  have hfreed := hcq.freed_le
  have hreturned := hcq.returned_prefix.length_le
  rw [hcq.posted_eq] at htakes
  exact ⟨j, hij, f, t, hcq, by omega⟩

/-- Every completion reaches the ring. -/
theorem Fair.posted (hnodrop : s.params.isFeatureNodrop = true) (hfair : Fair c) (i : Nat) :
    ∃ j ≥ i, arrived (ledgerAt c i) (c.state i) <+: (ledgerAt c j).cq.posted := by
  have hgrows : LeadsTo (i ≤ ·)
      fun j => (arrived (ledgerAt c i) (c.state i)).length ≤ (ledgerAt c j).cq.posted.length := by
    apply LeadsTo.of_growth (f := fun j => (ledgerAt c j).cq.posted.length)
    intro j hij hlt
    obtain ⟨k, hjk, f, t, hcq, hgiven⟩ := hfair.given hinv j
    by_cases hmore : (ledgerAt c j).cq.posted.length < (ledgerAt c k).cq.posted.length
    · exact ⟨k, hjk, hij.trans hjk, hmore⟩
    -- nothing was posted meanwhile, so that all is given back and the rest waits
    have hposted := (posted_mono (c := c) hjk).length_le
    have harrived := (arrived_mono (c := c) (hij.trans hjk)).length_le
    have hfreed := hcq.freed_le
    have hreturned := hcq.returned_prefix.length_le
    obtain rfl : f = (ledgerAt c k).cq.posted.length := by omega
    have hne : (c.state k).overflow ≠ [] := by
      intro hnone
      have hall : arrived (ledgerAt c k) (c.state k) = (ledgerAt c k).cq.posted := by
        rw [arrived, hnone, List.append_nil]
      rw [hall] at harrived
      omega
    obtain ⟨m, hkm, hpast⟩ := Waiting.leads hnodrop hfair _ k
      ⟨hinv k, ⟨t, hcq⟩, hne, rfl⟩
    exact ⟨m, hjk.trans hkm, by omega, by omega⟩
  obtain ⟨j, hij, hlen⟩ := hgrows i (Nat.le_refl i)
  exact ⟨j, hij,
    List.prefix_of_prefix_length_le (arrived_mono hij) (List.prefix_append _ _) hlen⟩

end Course

/-- In every endless run in which the parties do their share: for every instant there is a later
one by which each request published until then has been completed and its completion returned
to the application, however often completions have found no room in between. Completions reach
the ring in the order in which they arrived; and a call that begins while some wait beside an
empty ring sees the bit, enters with GETEVENTS and does not come back before one is moved. -/
theorem every_request_returned (hnodrop : s.params.isFeatureNodrop = true)
    {sq : Squeue.Inner E} {cq : Cqueue.Inner C} (hroom : (sq.tail - sq.head).toNat ≤ sq.slots)
    (hfresh : cq.tail = cq.head) (hbit : sqCqOverflow sq.flags = false)
    (c : Course (Step s) (⟨sq, .none, cq, .none, [], [], .idle⟩ : State E C)) (hfair : Fair c)
    (i : Nat) :
    (∃ j ≥ i, requests (ledgerAt c i).sq.published ≤ completions (ledgerAt c j).cq.returned) ∧
      (∀ j ≥ i, arrived (ledgerAt c i) (c.state i) <+: arrived (ledgerAt c j) (c.state j)) ∧
      ((c.state i).pc = .idle → (c.state (i + 1)).pc ≠ .idle → (c.state i).overflow ≠ [] →
        (c.state i).cq.tail = (c.state i).cq.head →
          ∃ j > i, (ledgerAt c i).cq.posted.length < (ledgerAt c j).cq.posted.length ∧
            ∀ k > i, k < j → Alerted (c.state k).pc) := by
  have hinv (i : Nat) : Inv sq.head.toNat cq.head.toNat (ledgerAt c i) (c.state i) :=
    Inv.run hroom hfresh hbit (c.run i)
  refine ⟨?_, fun j hij => arrived_mono hij, ?_⟩
  · obtain ⟨j₁, h₁, hconsumed⟩ := hfair.consumed hinv i
    obtain ⟨j₂, h₂, hcompleted⟩ := hfair.completes j₁
    obtain ⟨j₃, h₃, hposted⟩ := hfair.posted hinv hnodrop j₂
    obtain ⟨j₄, h₄, f, t, hcq, hgiven⟩ := hfair.given hinv j₃
    have hreturned : (ledgerAt c j₃).cq.posted <+: (ledgerAt c j₄).cq.returned :=
      List.prefix_of_prefix_length_le (posted_mono h₄) hcq.returned_prefix
        (hgiven.trans hcq.freed_le)
    refine ⟨j₄, by omega, ?_⟩
    calc requests (ledgerAt c i).sq.published
        ≤ requests (ledgerAt c j₁).sq.consumed := requests_le hconsumed
      _ ≤ completions (arrived (ledgerAt c j₂) (c.state j₂)) := by
          rw [arrived, completions_append, add_comm]
          exact hcompleted
      _ ≤ completions (ledgerAt c j₃).cq.posted := completions_le hposted
      _ ≤ completions (ledgerAt c j₄).cq.returned := completions_le hreturned
  · intro hidle hleaves hne hempty
    obtain ⟨f, t, hcq⟩ := (hinv i).cq
    have hcount := hcq.posted_eq
    rw [hempty, UInt32.sub_self] at hcount
    have hfreed := hcq.freed_le
    have hreturned := hcq.returned_prefix.length_le
    obtain rfl : f = (ledgerAt c i).cq.posted.length := by
      have hzero : (0 : UInt32).toNat = 0 := rfl
      omega
    exact Waiting.call_posts hnodrop hfair ⟨hinv i, ⟨t, hcq⟩, hne, rfl⟩ hidle hleaves

/-! A run in which a completion overflows, and which then goes on with calls that find nothing. -/

omit [Squeue.EntryMarker E] [Cqueue.EntryMarker C] in
/-- The instants of a `submit` that finds nothing to do. -/
def restingState (σ : State E C) (call : EnterCall) (i : Nat) : State E C :=
  let req := .submitAndWait 0
  let len := sqLen σ.sq.head σ.sq.tail
  { σ with
    pc :=
      match i with
      | 0 => .idle
      | 1 => .called req
      | 2 => .headLoaded req σ.sq.head
      | 3 => .lenLoaded req len
      | 4 => .overflowLoaded req len σ.sq.flags
      | 5 => .submitting call call.toSubmit.toNat
      | _ => .reaping call }

/-- `submit` over and over again. -/
def restingCourse (σ : State E C) (call : EnterCall)
    (henter : s.finish (sqLen σ.sq.head σ.sq.tail) σ.sq.flags σ.sq.flags (.submitAndWait 0) =
      .enter call)
    (hflag : call.flag &&& Sys.ioringEnterGetevents = 0) :
    Course (Step s) (restingState σ call 0) :=
  .round (restingState σ call) (fun _ => .silent) 7 (by decide) fun i hi =>
    match i, hi with
    | 0, _ => .call _
    | 1, _ => .loadHead
    | 2, _ => .loadTail
    | 3, _ => .loadOverflow
    | 4, _ => .enter henter
    | 5, _ => .submitted
    | 6, _ => .leave hflag

/-- Two requests complete in reverse order; the second completion overflows, and `submit` moves
it to the ring after the first has been read. Both have been returned when the run comes to
rest. -/
def overflowCourse : Course (Step nodropSubmitter)
    (⟨smallSq, .none, smallCq, .none, [], [], .idle⟩ : State Squeue.Entry Cqueue.Entry) :=
  have pushed : Squeue.Step ⟨smallSq, .ready smallSq.borrow⟩
      (.pushed [⟨{ Squeue.sqeZeroed with userData := 1 }⟩,
        ⟨{ Squeue.sqeZeroed with userData := 2 }⟩]) _ :=
    .pushMultiple (if_neg (by decide +kernel))
  have decided : nodropSubmitter.finish 2 0 0 (.submitAndWait 0) =
      .enter ⟨3, 2, 0, 0, 0, 128⟩ := by decide +kernel
  have second : smallCq.kernelPost ⟨2, 0, 0⟩ = some _ := if_pos (by decide +kernel)
  have decided' : nodropSubmitter.finish 0 2 2 (.submitAndWait 0) =
      .enter ⟨3, 0, 0, 1, 0, 128⟩ := by decide +kernel
  .cons (.submission .borrow (fun _ => nofun)) <| .cons (.submission pushed (fun _ => nofun)) <|
  .cons (.submission .drop (fun _ => nofun)) <| .cons (.call (.submitAndWait 0)) <|
  .cons .loadHead <| .cons .loadTail <| .cons .loadOverflow <| .cons (.enter decided) <|
  .cons (.consume (if_neg (by decide +kernel))) <|
  .cons (.consume (if_neg (by decide +kernel))) <| .cons .submitted <|
  .cons (.leave (by decide +kernel)) <| .cons (.complete [1] rfl second) <|
  .cons (.completeOverflow [] ⟨1, 0, 0⟩ rfl (.inr (if_neg (by decide +kernel)))) <|
  .cons (.completion .borrow (fun _ => nofun)) <|
  .cons (.completion (.next (if_pos (by decide +kernel))) (fun _ => nofun)) <|
  .cons (.completion .drop (fun _ => nofun)) <| .cons (.call (.submitAndWait 0)) <|
  .cons .loadHead <| .cons .loadTail <| .cons .loadOverflow <| .cons (.enter decided') <|
  .cons .submitted <| .cons (.flush (by decide +kernel) rfl) <|
  .cons (.completion .borrow (fun _ => nofun)) <|
  .cons (.completion (.next (if_pos (by decide +kernel))) (fun _ => nofun)) <|
  .cons (.completion .drop (fun _ => nofun)) <|
  restingCourse ⟨_, _, _, _, _, _, .idle⟩ ⟨3, 0, 0, 0, 0, 128⟩ (by decide +kernel)
    (by decide +kernel)

/-- From its 27th instant on the run only repeats the seven instants of a `submit`. -/
theorem overflowCourse_rests : ∃ σ : State Squeue.Entry Cqueue.Entry,
    σ.cq.tail - σ.cq.head = 0 ∧ σ.inFlight = [] ∧
      ∀ n, ∀ i < 7, overflowCourse.state (7 * n + i + 27) =
        restingState σ ⟨3, 0, 0, 0, 0, 128⟩ i := by
  refine ⟨overflowCourse.state 27, by decide +kernel, rfl, fun n i hi => ?_⟩
  have hround : (7 * n + i) % 7 = i := by omega
  change restingState (overflowCourse.state 27) _ ((7 * n + i) % 7) = _
  rw [hround]

theorem fair_overflowCourse : Fair overflowCourse := by
  obtain ⟨σ, hempty, hnone, hrests⟩ := overflowCourse_rests
  have hinv (i : Nat) : Inv _ _ (ledgerAt overflowCourse i) (overflowCourse.state i) :=
    Inv.run (by decide +kernel) rfl rfl (overflowCourse.run i)
  have hlater (i : Nat) : i ≤ 7 * i + 0 + 27 := by omega
  refine ⟨frequently_atTop.mpr fun i => ?_, fun i => ?_, frequently_atTop.mpr fun i => ?_,
    fun i => ?_⟩
  · refine ⟨7 * i + 0 + 27, hlater i, ?_⟩
    rw [hrests i 0 (by decide), hrests i 1 (by decide)]
    exact ⟨rfl, nofun⟩
  · refine ⟨7 * i + 0 + 27, hlater i, ?_⟩
    rw [hrests i 0 (by decide)]
    change _ + (σ.cq.tail - σ.cq.head).toNat ≤ _
    rw [hempty]
    exact (posted_mono (hlater i)).length_le
  · refine ⟨7 * i + 5 + 27, by omega, ⟨3, 0, 0, 0, 0, 128⟩, ?_⟩
    rw [hrests i 5 (by decide), hrests i 6 (by decide)]
    exact ⟨rfl, rfl⟩
  · refine ⟨7 * i + 0 + 27, hlater i, (requests_le (consumed_mono (hlater i))).trans ?_⟩
    rw [(hinv _).balance, hrests i 0 (by decide)]
    change ((σ.inFlight : Multiset UInt64) + _ + _) ≤ _
    rw [hnone, Multiset.coe_nil, Multiset.zero_add]

/-- The overflowed completion is moved by the call that begins at the 17th instant, and returned
too. -/
theorem every_request_returned_overflow :
    (overflowCourse.state 17).overflow = [⟨1, 0, 0⟩] ∧
      requests (ledgerAt overflowCourse 17).sq.published = {1, 2} ∧
      (∃ j ≥ 17, requests (ledgerAt overflowCourse 17).sq.published ≤
        completions (ledgerAt overflowCourse j).cq.returned) ∧
      ∃ j > 17, 1 < (ledgerAt overflowCourse j).cq.posted.length ∧
        ∀ k > 17, k < j → Alerted (overflowCourse.state k).pc := by
  obtain ⟨hreturned, -, hmoves⟩ :=
    every_request_returned rfl (by decide +kernel) rfl rfl overflowCourse fair_overflowCourse 17
  refine ⟨rfl, by decide +kernel, hreturned, ?_⟩
  exact hmoves rfl nofun (by decide +kernel) (by decide +kernel)

end IoUring.Ring
