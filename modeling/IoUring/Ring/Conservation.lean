import IoUring.Ring.System
import IoUring.Submit.Decision
import Mathlib.Algebra.Order.Group.Multiset
import Mathlib.Tactic.Abel

/-!
# No request is lost between the queues

The invariants of the two queues say where published entries and posted
completions are. What remains is the kernel's own balance: everything consumed
is in flight, in the overflow list, or posted. A submit call that sees the
overflow bit enters the kernel with `GETEVENTS`, and the kernel then moves the
list to the ring until it is empty or the ring is full.
-/

namespace IoUring.Ring

open Foundation Submit

variable {E C : Type}

/-- A flush is a number of posts. -/
theorem flush_inv {base f t : Nat} {l : Cqueue.Ledger C} {cq : Cqueue.Inner C}
    {app : Cqueue.App} (hinv : Cqueue.Inv base l f t cq app) {cqes moved left : List C}
    {cq' : Cqueue.Inner C} (h : flush cq cqes = (moved, left, cq')) :
    Cqueue.Inv base (l.posts moved) f t cq' app := by
  induction cqes generalizing cq l moved with
  | nil =>
      cases h
      exact hinv
  | cons cqe rest ih =>
      obtain ⟨-, rfl, -, rfl⟩ | ⟨cq₁, moved₁, hpost, hrest, rfl⟩ := flush_cons h
      · exact hinv
      · exact ih (hinv.kernelPost hpost) hrest

variable [Squeue.EntryMarker E] [Cqueue.EntryMarker C]

/-- The user data of entries, counted with multiplicity. -/
def requests (entries : List E) : Multiset UInt64 :=
  ↑(entries.map Squeue.EntryMarker.getUserData)

/-- The user data of completions, counted with multiplicity. -/
def completions (cqes : List C) : Multiset UInt64 :=
  ↑(cqes.map Cqueue.EntryMarker.userData)

omit [Cqueue.EntryMarker C] in
@[simp] theorem requests_append (a b : List E) :
    requests (a ++ b) = requests a + requests b := by
  simp [requests]

omit [Squeue.EntryMarker E] in
@[simp] theorem completions_append (a b : List C) :
    completions (a ++ b) = completions a + completions b := by
  simp [completions]

/-- The queues' invariants, the kernel's balance, and the overflow bit. -/
structure Inv (bs bc : Nat) (l : Ledger E C) (s : State E C) : Prop where
  sq : ∃ c, Squeue.Inv bs l.sq c s.sq s.sqApp
  cq : ∃ f t, Cqueue.Inv bc l.cq f t s.cq s.cqApp
  balance : requests l.sq.consumed =
    (s.inFlight : Multiset UInt64) + completions s.overflow + completions l.cq.posted
  bit : sqCqOverflow s.sq.flags = true ↔ s.overflow ≠ []

namespace Inv

variable {bs bc : Nat} {l : Ledger E C} {sq : Squeue.Inner E} {sqApp : Squeue.App}
  {cq : Cqueue.Inner C} {cqApp : Cqueue.App} {inFlight : List UInt64} {overflow : List C}
  {pc pc' : Pc}

/-- The submit call moves on and nothing else changes. -/
theorem move (h : Inv bs bc l ⟨sq, sqApp, cq, cqApp, inFlight, overflow, pc⟩) :
    Inv bs bc l ⟨sq, sqApp, cq, cqApp, inFlight, overflow, pc'⟩ where
  sq := h.sq
  cq := h.cq
  balance := h.balance
  bit := h.bit

theorem submission (h : Inv bs bc l ⟨sq, sqApp, cq, cqApp, inFlight, overflow, pc⟩)
    {event : Squeue.Event E} {sq' : Squeue.Inner E} {app' : Squeue.App}
    (hstep : Squeue.Step ⟨sq, sqApp⟩ event ⟨sq', app'⟩) (happ : ∀ entry, event ≠ .read entry) :
    Inv bs bc (l.record (.sq event)) ⟨sq', app', cq, cqApp, inFlight, overflow, pc⟩ where
  sq := by
    obtain ⟨c, hsq⟩ := h.sq
    exact hsq.step hstep
  cq := h.cq
  balance := by
    simp only [Ledger.record, l.sq.record_consumed happ]
    exact h.balance
  bit := by
    have hflags : sq'.flags = sq.flags := hstep.flags_eq
    simp only [hflags]
    exact h.bit

theorem completion (h : Inv bs bc l ⟨sq, sqApp, cq, cqApp, inFlight, overflow, pc⟩)
    {event : Cqueue.Event C} {cq' : Cqueue.Inner C} {app' : Cqueue.App}
    (hstep : Cqueue.Step ⟨cq, cqApp⟩ event ⟨cq', app'⟩) (happ : ∀ cqe, event ≠ .posted cqe) :
    Inv bs bc (l.record (.cq event)) ⟨sq, sqApp, cq', app', inFlight, overflow, pc⟩ where
  sq := h.sq
  cq := by
    obtain ⟨f, t, hcq⟩ := h.cq
    exact hcq.step hstep
  balance := by
    simp only [Ledger.record, l.cq.record_posted happ]
    exact h.balance
  bit := h.bit

/-- A consumed entry is in flight. -/
theorem consume (h : Inv bs bc l ⟨sq, sqApp, cq, cqApp, inFlight, overflow, pc⟩) {entry : E}
    {sq' : Squeue.Inner E} (heq : sq.kernelRead = some (entry, sq')) :
    Inv bs bc (l.record (.sq (.read entry)))
      ⟨sq', sqApp, cq, cqApp, inFlight ++ [Squeue.EntryMarker.getUserData entry], overflow,
        pc'⟩ where
  sq := by
    obtain ⟨c, hsq⟩ := h.sq
    exact ⟨c, hsq.kernelRead heq⟩
  cq := h.cq
  balance := by
    have hbalance := h.balance
    simp only at hbalance
    simp only [Ledger.record, Squeue.Ledger.record, requests_append, hbalance,
      ← Multiset.coe_add]
    simp only [requests, List.map_cons, List.map_nil]
    abel
  bit := by
    have hstep : Squeue.Step ⟨sq, sqApp⟩ (.read entry) ⟨sq', sqApp⟩ := .kernel heq
    have hflags : sq'.flags = sq.flags := hstep.flags_eq
    simp only [hflags]
    exact h.bit

/-- A completion that finds room is posted. -/
theorem complete {before after : List UInt64} {cqe : C} {cq' : Cqueue.Inner C}
    (h : Inv bs bc l ⟨sq, sqApp, cq, cqApp,
      before ++ Cqueue.EntryMarker.userData cqe :: after, [], pc⟩)
    (hpost : cq.kernelPost cqe = some cq') :
    Inv bs bc (l.record (.cq (.posted cqe)))
      ⟨sq, sqApp, cq', cqApp, before ++ after, [], pc⟩ where
  sq := h.sq
  cq := by
    obtain ⟨f, t, hcq⟩ := h.cq
    exact ⟨f, t, hcq.kernelPost hpost⟩
  balance := by
    have hbalance := h.balance
    simp only [← Multiset.coe_add, ← Multiset.cons_coe, ← Multiset.singleton_add] at hbalance
    simp only [Ledger.record, Cqueue.Ledger.record, completions_append, hbalance,
      ← Multiset.coe_add]
    simp only [completions, List.map_cons, List.map_nil, Multiset.coe_singleton]
    abel
  bit := h.bit

/-- A completion that finds no room joins the overflow list, and the bit goes up. -/
theorem completeOverflow {before after : List UInt64} {cqe : C}
    (h : Inv bs bc l ⟨sq, sqApp, cq, cqApp,
      before ++ Cqueue.EntryMarker.userData cqe :: after, overflow, pc⟩) :
    Inv bs bc l
      ⟨raiseOverflow sq, sqApp, cq, cqApp, before ++ after, overflow ++ [cqe], pc⟩ where
  sq := by
    obtain ⟨c, hsq⟩ := h.sq
    exact ⟨c, { hsq with }⟩
  cq := h.cq
  balance := by
    have hbalance := h.balance
    simp only [← Multiset.coe_add, ← Multiset.cons_coe, ← Multiset.singleton_add] at hbalance
    simp only [completions_append, hbalance, ← Multiset.coe_add]
    simp only [completions, List.map_cons, List.map_nil, Multiset.coe_singleton]
    abel
  bit := by simp [sqCqOverflow_raise]

/-- A flush moves completions from the list to the ring, and the bit goes down with the list. -/
theorem flush {moved left : List C} {cq' : Cqueue.Inner C}
    (h : Inv bs bc l ⟨sq, sqApp, cq, cqApp, inFlight, overflow, pc⟩)
    (heq : Ring.flush cq overflow = (moved, left, cq')) :
    Inv bs bc (l.record (.flushed moved))
      ⟨afterFlush sq left, sqApp, cq', cqApp, inFlight, left, pc'⟩ where
  sq := by
    obtain ⟨c, hsq⟩ := h.sq
    refine ⟨c, ?_⟩
    unfold afterFlush
    split
    · exact { hsq with }
    · exact hsq
  cq := by
    obtain ⟨f, t, hcq⟩ := h.cq
    exact ⟨f, t, flush_inv hcq heq⟩
  balance := by
    have hbalance := h.balance
    obtain ⟨rfl, -⟩ := flush_moves heq
    simp only [completions_append] at hbalance
    simp only [Ledger.record, Cqueue.Ledger.posts_posted, completions_append, hbalance]
    abel
  bit := by
    unfold afterFlush
    cases left with
    | nil => simp [sqCqOverflow_clear]
    | cons cqe rest =>
        have hne : overflow ≠ [] := by
          obtain ⟨rfl, -⟩ := flush_moves heq
          simp
        simpa using h.bit.mpr hne

/-- The step lemma: every step of either party carries the invariant over. -/
theorem step {s : Submitter} {σ σ' : State E C} {event : Event E C} (h : Inv bs bc l σ)
    (hstep : Step s σ event σ') : Inv bs bc (l.record event) σ' := by
  cases hstep with
  | submission hsq happ => exact h.submission hsq happ
  | completion hcq happ => exact h.completion hcq happ
  | call | loadHead | loadTail | loadOverflow | returnOk | enter | submitted | leave =>
      exact h.move
  | consume heq => exact h.consume heq
  | poll _ heq => exact h.consume heq
  | flush _ heq => exact h.flush heq
  | complete _ hdata hpost =>
      subst hdata
      exact h.complete hpost
  | completeOverflow _ _ hdata =>
      subst hdata
      exact h.completeOverflow
  | @otherFlags sq _ _ _ _ _ _ flags hkeep =>
      have hsame : sqCqOverflow flags = sqCqOverflow sq.flags := by
        rw [sqCqOverflow, sqCqOverflow, hkeep]
      obtain ⟨c, hsq⟩ := h.sq
      exact {
        sq := ⟨c, { hsq with }⟩
        cq := h.cq
        balance := h.balance
        bit := by
          simp only [hsame]
          exact h.bit }

/-- Fresh rings satisfy the invariant, whatever their counters are. -/
theorem start (hroom : (sq.tail - sq.head).toNat ≤ sq.slots) (hfresh : cq.tail = cq.head)
    (hbit : sqCqOverflow sq.flags = false) :
    Inv sq.head.toNat cq.head.toNat (Ledger.start sq cq)
      (⟨sq, .none, cq, .none, [], [], .idle⟩ : State E C) where
  sq := ⟨0, .start sq hroom⟩
  cq := ⟨0, 0, .start cq (by simp [hfresh])⟩
  balance := by
    have hposted : (Cqueue.Ledger.start cq).posted = [] := by
      simp [Cqueue.Ledger.start, Cqueue.unread, Cqueue.readHead, Cqueue.App.handle, hfresh,
        RingSize.slotsFrom]
    simp [Ledger.start, Squeue.Ledger.start, hposted, requests, completions]
  bit := by simp [hbit]

/-- The run lemma: the invariant holds after every interleaving. -/
theorem run {s : Submitter} (hroom : (sq.tail - sq.head).toNat ≤ sq.slots)
    (hfresh : cq.tail = cq.head) (hbit : sqCqOverflow sq.flags = false)
    {events : List (Event E C)} {σ : State E C}
    (run : Run (Step s) ⟨sq, .none, cq, .none, [], [], .idle⟩ events σ) :
    Inv sq.head.toNat cq.head.toNat (Ledger.of sq cq events) σ :=
  Run.invariant (r := Ledger.record) (g := Ledger.start sq cq)
    (I := Inv sq.head.toNat cq.head.toNat)
    (fun _ _ _ _ hinv hstep => hinv.step hstep) (start hroom hfresh hbit) run

/-- Every published request is in exactly one of five places. -/
theorem conserved {σ : State E C} (h : Inv bs bc l σ) :
    requests l.sq.published =
      requests (Squeue.unconsumed σ.sq) + σ.inFlight + completions σ.overflow +
        completions (Cqueue.unread σ.cq σ.cqApp) + completions l.cq.returned := by
  obtain ⟨c, hsq⟩ := h.sq
  obtain ⟨f, t, hcq⟩ := h.cq
  have hpublished : l.sq.consumed ++ Squeue.unconsumed σ.sq = l.sq.published := by
    rw [hsq.unconsumed_eq]
    nth_rewrite 1 [List.prefix_iff_eq_take.mp hsq.consumed_prefix]
    exact List.take_append_drop _ _
  have hposted : l.cq.returned ++ Cqueue.unread σ.cq σ.cqApp = l.cq.posted := by
    rw [hcq.unread_eq]
    nth_rewrite 1 [List.prefix_iff_eq_take.mp hcq.returned_prefix]
    exact List.take_append_drop _ _
  rw [← hpublished, requests_append, h.balance, ← hposted, completions_append]
  abel

end Inv

omit [Squeue.EntryMarker E] [Cqueue.EntryMarker C] in
/-- A call whose overflow load sees the bit enters the kernel with `GETEVENTS`,
whatever the wake-up load sees. -/
theorem finish_of_overflow {s : Submitter} (hnodrop : s.params.isFeatureNodrop = true)
    (len : UInt64) {f1 : UInt32} (hseen : sqCqOverflow f1 = true) (f2 : UInt32)
    (req : Request) :
    ∃ call, s.finish len f1 f2 req = .enter call ∧
      call.flag &&& Sys.ioringEnterGetevents ≠ 0 := by
  have hskips : ¬ s.skips req.want f1 f2 = true := by
    intro h
    exact ((s.skips_iff req.want f1 f2).mp h).2.2.2 ⟨hseen, hnodrop⟩
  have hgets : s.getsEvents req.want f1 = true :=
    (s.getsEvents_iff req.want f1).mpr (.inr (.inr hseen))
  rw [s.finish_eq, if_neg hskips]
  exact ⟨_, rfl, s.getevents_of_getsEvents hgets _ _ _ _ _⟩

/-- A call with `GETEVENTS` does not leave the kernel without the flush. -/
theorem flushed_of_leaves {s : Submitter} {σ σ' : State E C} {event : Event E C}
    {call : EnterCall} (hpc : σ.pc = .reaping call)
    (hflag : call.flag &&& Sys.ioringEnterGetevents ≠ 0) (hstep : Step s σ event σ')
    (hleaves : σ'.pc = .idle) : ∃ moved, event = .flushed moved := by
  cases hstep with
  | flush => exact ⟨_, rfl⟩
  | leave hnone =>
      cases hpc
      exact absurd hnone hflag
  | _ => cases hpc <;> cases hleaves

/-- Over every interleaving: the published requests are those unconsumed, in
flight, overflowed, unread and returned; the overflow bit says whether the
overflow list holds anything; a submit call that sees it enters the kernel with
`GETEVENTS` and leaves it through a flush; and the flush moves the front of the
list, until it is empty and the bit down or the ring is full. -/
theorem requests_conserved {s : Submitter} (hnodrop : s.params.isFeatureNodrop = true)
    {sq : Squeue.Inner E} {cq : Cqueue.Inner C}
    (hroom : (sq.tail - sq.head).toNat ≤ sq.slots) (hfresh : cq.tail = cq.head)
    (hbit : sqCqOverflow sq.flags = false) {events : List (Event E C)} {σ : State E C}
    (run : Run (Step s) ⟨sq, .none, cq, .none, [], [], .idle⟩ events σ) :
    requests (Ledger.of sq cq events).sq.published =
        requests (Squeue.unconsumed σ.sq) + σ.inFlight + completions σ.overflow +
          completions (Cqueue.unread σ.cq σ.cqApp) +
          completions (Ledger.of sq cq events).cq.returned ∧
      (sqCqOverflow σ.sq.flags = true ↔ σ.overflow ≠ []) ∧
      (∀ req len f1, σ.pc = .overflowLoaded req len f1 → sqCqOverflow f1 = true →
        ∀ f2, ∃ call, s.finish len f1 f2 req = .enter call ∧
          call.flag &&& Sys.ioringEnterGetevents ≠ 0) ∧
      (∀ call event σ', σ.pc = .reaping call → call.flag &&& Sys.ioringEnterGetevents ≠ 0 →
        Step s σ event σ' → σ'.pc = .idle → ∃ moved, event = .flushed moved) ∧
      ∀ moved σ', Step s σ (.flushed moved) σ' →
        moved ++ σ'.overflow = σ.overflow ∧
        (σ'.overflow = [] ∧ sqCqOverflow σ'.sq.flags = false ∨
          ¬ σ'.cq.tail - σ'.cq.head < σ'.cq.ringEntries) := by
  have h := Inv.run hroom hfresh hbit run
  refine ⟨h.conserved, h.bit, ?_, ?_, ?_⟩
  · intro req len f1 _ hseen f2
    exact finish_of_overflow hnodrop len hseen f2 req
  · intro call event σ'
    exact flushed_of_leaves
  · intro moved σ' hstep
    have hnext := h.step hstep
    cases hstep with
    | flush _ heq =>
        obtain ⟨happend, hstop⟩ := flush_moves heq
        refine ⟨happend, ?_⟩
        rcases hstop with hempty | hfull
        · refine .inl ⟨hempty, Bool.eq_false_iff.mpr ?_⟩
          intro hup
          exact hnext.bit.mp hup hempty
        · exact .inr hfull

/-- Two submission slots, with the counters about to wrap. -/
def smallSq : Squeue.Inner Squeue.Entry where
  toRingSize := .two
  head := 4294967295
  tail := 4294967295
  flags := 0
  dropped := 0
  sqes := fun _ => ⟨Squeue.sqeZeroed⟩

/-- A single completion slot. -/
def smallCq : Cqueue.Inner Cqueue.Entry where
  ringEntries := 1
  ringMask := 0
  log2 := 0
  log2_le := by decide
  ringEntries_eq := by decide
  ringMask_eq := by decide
  head := 0
  tail := 0
  overflow := 0
  flags := 0
  cqes := fun _ => ⟨0, 0, 0⟩

/-- A submitter without SQPOLL on a kernel with `IORING_FEAT_NODROP`. -/
def nodropSubmitter : Submitter where
  fd := 3
  params := { Parameters.zeroed with features := Sys.ioringFeatNodrop }

/-- Two requests complete in reverse order; the second completion overflows
and reaches the ring in the `submit` after the first has been read. -/
theorem requests_conserved_overflow :
    ∃ events σ,
      Run (Step nodropSubmitter) ⟨smallSq, .none, smallCq, .none, [], [], .idle⟩ events σ ∧
      (Ledger.of smallSq smallCq events).cq.returned = [⟨2, 0, 0⟩] ∧
      Cqueue.unread σ.cq σ.cqApp = [⟨1, 0, 0⟩] ∧
      requests (Ledger.of smallSq smallCq events).sq.published =
        requests (Squeue.unconsumed σ.sq) + σ.inFlight + completions σ.overflow +
          completions (Cqueue.unread σ.cq σ.cqApp) +
          completions (Ledger.of smallSq smallCq events).cq.returned := by
  have run : Run (Step nodropSubmitter) ⟨smallSq, .none, smallCq, .none, [], [], .idle⟩ [] _ :=
    .start
  have run := run.next (.submission .borrow (fun _ => nofun))
  have pushed : Squeue.Step ⟨smallSq, .ready smallSq.borrow⟩
      (.pushed [⟨{ Squeue.sqeZeroed with userData := 1 }⟩,
        ⟨{ Squeue.sqeZeroed with userData := 2 }⟩]) _ :=
    .pushMultiple (if_neg (by decide +kernel))
  have run := run.next (.submission pushed (fun _ => nofun))
  have run := run.next (.submission .drop (fun _ => nofun))
  have decided : nodropSubmitter.finish 2 0 0 (.submitAndWait 0) =
      .enter ⟨3, 2, 0, 0, 0, 128⟩ := by decide +kernel
  have run := (((run.next (.call (.submitAndWait 0))).next .loadHead).next .loadTail).next
    .loadOverflow
  have run := run.next (.enter decided)
  have run := run.next (.consume (if_neg (by decide +kernel)))
  have run := run.next (.consume (if_neg (by decide +kernel)))
  have run := (run.next .submitted).next (.leave (by decide +kernel))
  -- the kernel completes the second request into the ring and the first into its list
  have second : smallCq.kernelPost ⟨2, 0, 0⟩ = some _ := if_pos (by decide +kernel)
  have run := run.next (.complete [1] rfl second)
  have run := run.next (.completeOverflow [] ⟨1, 0, 0⟩ rfl (.inr (if_neg (by decide +kernel))))
  have run := run.next (.completion .borrow (fun _ => nofun))
  have run := run.next (.completion (.next (if_pos (by decide +kernel))) (fun _ => nofun))
  have run := run.next (.completion .drop (fun _ => nofun))
  have decided : nodropSubmitter.finish 0 2 2 (.submitAndWait 0) =
      .enter ⟨3, 0, 0, 1, 0, 128⟩ := by decide +kernel
  have run := (((run.next (.call (.submitAndWait 0))).next .loadHead).next .loadTail).next
    .loadOverflow
  have run := (run.next (.enter decided)).next .submitted
  have run := run.next (.flush (by decide +kernel) rfl)
  exact ⟨_, _, run, by decide +kernel, by decide +kernel,
    (requests_conserved rfl (by decide +kernel) rfl rfl run).1⟩

end IoUring.Ring
