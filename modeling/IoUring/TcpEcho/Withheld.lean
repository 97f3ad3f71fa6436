import IoUring.Cqueue.Iterator
import IoUring.Submit.Decision
import IoUring.TcpEcho.Connections

/-!
# What the kernel has not been given

A push is seen by the kernel only after the next publication. What has been
pushed since is withheld, and with the backlog it makes up what the server keeps
for itself; everything else has been handed to the kernel.
-/

namespace IoUring.TcpEcho

open Foundation Submit

/-! ## The submission queue -/

/-- The entries pushed since the last publication. -/
def withheld (q : Squeue.Inner Squeue.Entry) (sq : Squeue.SubmissionQueue) : List Squeue.Entry :=
  (q.slotsFrom q.tail (sq.tail - q.tail).toNat).map q.sqes

section Withheld

variable {base c : Nat} {l : Squeue.Ledger Squeue.Entry} {q q' : Squeue.Inner Squeue.Entry}
  {sq sq' : Squeue.SubmissionQueue} {entry : Squeue.Entry}

theorem withheld_eq (h : Squeue.Inv base l c q (.ready sq)) : withheld q sq = l.unpublished := by
  have hpub := l.published_le
  have hlog := l.length_log
  have hcached := h.cached_le
  have hle := h.consumed_le
  have hroom := h.room
  have hslots := q.slots_le
  have hlen : (sq.tail - q.tail).toNat = l.unpublished.length := by
    rw [h.app.2, h.tail_eq, toNat_ofNat_sub_ofNat (by omega) (by omega)]
    omega
  rw [withheld, hlen, h.tail_eq, q.map_slotsFrom h.holds (by omega) (by omega),
    Squeue.Ledger.log, List.drop_left, List.take_length]

/-- What is pending is published or withheld. -/
theorem pending_split (h : Squeue.Inv base l c q (.ready sq)) :
    pending q sq = Squeue.unconsumed q ++ withheld q sq := by
  rw [pending_eq h, h.unconsumed_eq, withheld_eq h, Squeue.Ledger.log,
    List.drop_append_of_le_length h.consumed_le]

/-- The handle's length counts at least what is pending, and the queue holds no more. -/
theorem length_pending_le (h : Squeue.Inv base l c q (.ready sq)) :
    (pending q sq).length ≤ sq.len.toNat ∧ sq.len.toNat ≤ q.slots := by
  have hcached := h.cached_le
  rw [pending_eq h, List.length_drop, h.len_eq]
  have hlen := h.len_le
  rw [h.len_eq] at hlen
  exact ⟨by omega, hlen⟩

theorem slots_push (hpush : sq.push q entry = .ok (sq', q')) : q'.slots = q.slots := by
  cases (Squeue.SubmissionQueue.of_push hpush).2
  rfl

theorem unconsumed_push (h : Squeue.Inv base l c q (.ready sq))
    (hpush : sq.push q entry = .ok (sq', q')) :
    Squeue.unconsumed q' = Squeue.unconsumed q ∧
      withheld q' sq' = withheld q sq ++ [entry] := by
  have hnext := (pending_push h hpush).1
  rw [hnext.unconsumed_eq, h.unconsumed_eq, withheld_eq hnext, withheld_eq h]
  exact ⟨rfl, rfl⟩

/-- What an arm pushes is published no sooner, and grows by one at most. -/
theorem withheld_pushOrQueue (h : Squeue.Inv base l c q (.ready sq)) {push : Option Squeue.Entry}
    {backlog backlog' : List Squeue.Entry}
    (hpush : pushOrQueue sq q backlog push = (sq', q', backlog')) :
    Squeue.unconsumed q' = Squeue.unconsumed q ∧ q'.slots = q.slots ∧
      (withheld q' sq').length ≤ (withheld q sq).length + 1 := by
  unfold pushOrQueue at hpush
  split at hpush
  · cases hpush
    exact ⟨rfl, rfl, Nat.le_succ _⟩
  · split at hpush
    · rename_i hone
      obtain ⟨hsame, hone'⟩ := unconsumed_push h hone
      cases hpush
      refine ⟨hsame, slots_push hone, ?_⟩
      rw [hone', List.length_append, List.length_singleton]
    · cases hpush
      exact ⟨rfl, rfl, Nat.le_succ _⟩

/-- A publication leaves nothing withheld, and the length is that of what is pending. -/
theorem unconsumed_sync (h : Squeue.Inv base l c q (.ready sq)) (hsync : sq.sync q = (sq', q')) :
    Squeue.unconsumed q' = pending q sq ∧ withheld q' sq' = [] ∧
      sq'.len.toNat = (pending q sq).length := by
  cases hsync
  have hnext : Squeue.Inv base (l.record .published) l.consumed.length (sq.storeTail q)
      (.ready (sq.loadHead (sq.storeTail q))) :=
    { h.storeTail with
      cached_le := Nat.le_refl _
      room := by
        have hcached := h.cached_le
        have hroom := h.room
        rw [Squeue.Ledger.log_published]
        exact Nat.le_trans hroom (Nat.add_le_add_right hcached _)
      holds := h.storeTail.holds.mono h.cached_le
      app := ⟨h.head_eq, h.storeTail.app.2⟩ }
  refine ⟨?_, ?_, ?_⟩
  · rw [hnext.unconsumed_eq, pending_eq h]
    rfl
  · rw [withheld_eq hnext]
    rfl
  · rw [hnext.len_eq, Squeue.Ledger.log_published, pending_eq h, List.length_drop]

theorem unconsumed_kernelRead (h : Squeue.Inv base l c q (.ready sq))
    (hread : q.kernelRead = some (entry, q')) :
    Squeue.unconsumed q = entry :: Squeue.unconsumed q' ∧ withheld q' sq = withheld q sq := by
  obtain ⟨hnext, hpending⟩ := pending_kernelRead h hread
  have hsame : withheld q' sq = withheld q sq := by
    rw [withheld_eq hnext, withheld_eq h]
    rfl
  refine ⟨?_, hsame⟩
  rw [pending_split h, pending_split hnext, hsame, ← List.cons_append] at hpending
  exact List.append_cancel_right hpending

/-- The loop of `push_to` publishes nothing, `push_to` as a whole everything. -/
theorem unconsumed_pushTo (h : Squeue.Inv base l c q (.ready sq)) {accept accept' : AcceptCount}
    (hpush : accept.pushTo sq q = (accept', sq', q')) :
    Squeue.unconsumed q' = pending q' sq' ∧ withheld q' sq' = [] := by
  unfold AcceptCount.pushTo at hpush
  rcases hrun : AcceptCount.pushWhile accept.entry accept.count sq q with ⟨count', sq₁, q₁⟩
  rw [hrun] at hpush
  obtain ⟨l', h', -, -⟩ := pending_pushWhile h hrun
  obtain ⟨hall, hnone, -⟩ := unconsumed_sync h' (Prod.mk.eta.symm : sq₁.sync q₁ = _)
  obtain ⟨-, hsame⟩ := pending_sync h' (Prod.mk.eta.symm : sq₁.sync q₁ = _)
  cases hpush
  exact ⟨hall.trans hsame.symm, hnone⟩

/-- A push fails in a full queue. -/
theorem of_pushError {err : Squeue.PushError} (hpush : sq.push q entry = .error err) :
    sq.len.toNat = q.slots := by
  rw [← Squeue.SubmissionQueue.isFull_iff_len]
  unfold Squeue.SubmissionQueue.push at hpush
  split at hpush
  · cases hpush
  · simpa using ‹¬ (!sq.isFull q) = true›

theorem slots_pushTo {accept accept' : AcceptCount}
    (hpush : accept.pushTo sq q = (accept', sq', q')) : q'.slots = q.slots := by
  have hwhile (n : Nat) (sq : Squeue.SubmissionQueue) (q : Squeue.Inner Squeue.Entry) :
      (AcceptCount.pushWhile accept.entry n sq q).2.2.slots = q.slots := by
    induction n generalizing sq q with
    | zero => rfl
    | succ n ih =>
        rw [AcceptCount.pushWhile]
        split
        · rename_i hone
          exact (ih _ _).trans (slots_push hone)
        · rfl
  cases hpush
  exact hwhile accept.count sq q

/-- A submit call that enters the kernel asks it to take what is published. -/
theorem toSubmit_eq {s : Submitter} {want : UInt64} {f1 f2 : UInt32} {call : EnterCall}
    (hcall : s.submitAndWait want (sqLen q.head q.tail) f1 f2 = .enter call) :
    call.toSubmit.toNat = (Squeue.unconsumed q).length := by
  have hcount : (sqLen q.head q.tail).toUInt32.toNat = (Squeue.unconsumed q).length := by
    rw [sqLen, UInt32.toUInt32_toUInt64, Squeue.unconsumed, List.length_map,
      RingSize.length_slotsFrom]
  have hdecision := s.finish_eq (sqLen q.head q.tail) f1 f2 (.submitAndWait want)
  rw [Submitter.finish, hcall] at hdecision
  split at hdecision
  · cases hdecision
  · rw [Outcome.enter.inj hdecision, s.enter_enterFlags, hcount]

end Withheld

/-! ## The completion queue -/

/-- The completions that the loop over them gets to see. -/
def visible (q : Cqueue.Inner Cqueue.Entry) (cq : Cqueue.CompletionQueue) : List Cqueue.Entry :=
  (Cqueue.unread q (.ready cq)).take cq.len.toNat

section Visible

variable {base f t : Nat} {l : Cqueue.Ledger Cqueue.Entry} {q q' : Cqueue.Inner Cqueue.Entry}
  {cq cq' : Cqueue.CompletionQueue} {cqe : Cqueue.Entry}

theorem visible_subset (q : Cqueue.Inner Cqueue.Entry) (cq : Cqueue.CompletionQueue) :
    visible q cq ⊆ Cqueue.unread q (.ready cq) :=
  List.take_subset _ _

theorem visible_next (h : Cqueue.Inv base l f t q (.ready cq))
    (hnext : cq.next q = some (cqe, cq')) : visible q cq = cqe :: visible q cq' := by
  have hsome : cq.len.toNat ≠ 0 := by
    intro hzero
    rw [Cqueue.CompletionQueue.next_of_empty hzero] at hnext
    cases hnext
  have hlen : cq.len.toNat = cq'.len.toNat + 1 := by
    rw [Cqueue.CompletionQueue.next_of_ready hsome] at hnext
    have hpop := Cqueue.CompletionQueue.len_pop q hsome
    rw [show (cq.pop q).2 = cq' from congrArg Prod.snd (Option.some.inj hnext)] at hpop
    omega
  rw [visible, (unread_next h hnext).2, hlen, List.take_succ_cons, visible]

/-- What is posted comes behind what is visible. -/
theorem visible_posts {app : Cqueue.App} (h : Cqueue.Inv base l f t q app)
    (happ : app.handle = some cq) {cqes : List Cqueue.Entry}
    (hunread : Cqueue.unread q' (.ready cq) = Cqueue.unread q (.ready cq) ++ cqes)
    (hsame : Cqueue.unread q (.ready cq) = Cqueue.unread q app) :
    visible q' cq = visible q cq := by
  have hlen := h.len_eq happ
  have hcached := h.cached_le
  rw [visible, hunread, visible, List.take_append_of_le_length]
  rw [hsame, h.unread_eq, List.length_drop]
  omega

end Visible

/-! ## The server and the kernel -/

namespace State

/-- The jobs that have been handed to the kernel. -/
def handed (σ : State) : Multiset Job :=
  requestsOf (Squeue.unconsumed σ.queue) + requestsOf σ.working + resultsOf σ.overflow +
    resultsOf (Cqueue.unread σ.ring (.ready σ.cq))

/-- The jobs that the server keeps. -/
def kept (σ : State) : Multiset Job := requestsOf σ.backlog + requestsOf (withheld σ.queue σ.sq)

theorem jobs_eq {σ : State} (h : Sound σ) : σ.jobs = σ.kept + σ.handed := by
  obtain ⟨base, l, c, hsq⟩ := h.sq
  rw [jobs, pending_split hsq, requestsOf_append, kept, handed]
  abel

end State

end IoUring.TcpEcho
