import IoUring.Ring.Conservation
import IoUring.TcpEcho.System

/-!
# The queues only move jobs

A request is in the backlog, in the submission queue or with the kernel, and a
completion in the overflow list or in the completion queue. Steps that only
move jobs from place to place are no steps of the desk; all others are the same
there.
-/

namespace IoUring.TcpEcho

open Foundation Submit

/-! ## What the queues hold -/

/-- The entries pushed and not consumed, published or not. -/
def pending (q : Squeue.Inner Squeue.Entry) (sq : Squeue.SubmissionQueue) : List Squeue.Entry :=
  (Squeue.pendingSlots q sq).map q.sqes

section Pending

variable {base c : Nat} {l : Squeue.Ledger Squeue.Entry} {q q' : Squeue.Inner Squeue.Entry}
  {sq sq' : Squeue.SubmissionQueue} {entry : Squeue.Entry}

theorem pending_eq (h : Squeue.Inv base l c q (.ready sq)) :
    pending q sq = l.log.drop l.consumed.length := by
  have hpub := l.published_le
  have hle := h.consumed_le
  rw [pending, Squeue.pendingSlots, h.pending_eq, h.head_eq,
    q.map_slotsFrom h.holds h.cached_le (by omega)]
  exact List.take_of_length_le (by simp)

theorem pending_push (h : Squeue.Inv base l c q (.ready sq))
    (hpush : sq.push q entry = .ok (sq', q')) :
    Squeue.Inv base (l.record (.pushed [entry])) c q' (.ready sq') ∧
      pending q' sq' = pending q sq ++ [entry] := by
  have hnext := h.pushMultiple (h.push_eq_pushMultiple hpush)
  refine ⟨hnext, ?_⟩
  have hle := h.consumed_le
  have hpub := l.published_le
  rw [pending_eq hnext, pending_eq h, Squeue.Ledger.log_pushed]
  exact List.drop_append_of_le_length (hle.trans hpub)

theorem pending_sync (h : Squeue.Inv base l c q (.ready sq)) (hsync : sq.sync q = (sq', q')) :
    (∃ c', Squeue.Inv base (l.record .published) c' q' (.ready sq')) ∧
      pending q' sq' = pending q sq := by
  cases hsync
  exact ⟨h.storeTail.step .syncLoad, rfl⟩

theorem pending_kernelRead (h : Squeue.Inv base l c q (.ready sq))
    (hread : q.kernelRead = some (entry, q')) :
    Squeue.Inv base (l.record (.read entry)) c q' (.ready sq) ∧
      pending q sq = entry :: pending q' sq := by
  have hnext := h.kernelRead hread
  refine ⟨hnext, ?_⟩
  obtain ⟨rest, hpublished⟩ := hnext.consumed_prefix
  have hlog : l.log = l.consumed ++ entry :: (rest ++ l.unpublished) := by
    change (l.consumed ++ [entry]) ++ rest = l.published at hpublished
    rw [Squeue.Ledger.log, ← hpublished]
    simp
  have hconsumed : (l.record (.read entry)).consumed = l.consumed ++ [entry] := rfl
  have hlog' : (l.record (.read entry)).log =
      (l.consumed ++ [entry]) ++ (rest ++ l.unpublished) := by
    change l.log = _
    rw [hlog]
    simp
  rw [pending_eq h, pending_eq hnext, hconsumed, hlog', hlog, List.drop_left, List.drop_left]

/-- The loop of `push_to` pushes copies of its entry and counts them. -/
theorem pending_pushWhile (h : Squeue.Inv base l c q (.ready sq)) {count count' : Nat}
    (hpush : AcceptCount.pushWhile entry count sq q = (count', sq', q')) :
    ∃ l', Squeue.Inv base l' c q' (.ready sq') ∧ count' ≤ count ∧
      pending q' sq' = pending q sq ++ List.replicate (count - count') entry := by
  induction count generalizing l sq q with
  | zero =>
      cases hpush
      exact ⟨l, h, Nat.le_refl _, by simp⟩
  | succ count ih =>
      rw [AcceptCount.pushWhile] at hpush
      split at hpush
      · rename_i sq₁ q₁ hone
        obtain ⟨h₁, hpending⟩ := pending_push h hone
        obtain ⟨l', h', hle, hrest⟩ := ih h₁ hpush
        refine ⟨l', h', hle.trans (Nat.le_succ _), ?_⟩
        rw [hrest, hpending, List.append_assoc, Nat.succ_sub hle, List.replicate_succ]
        rfl
      · cases hpush
        exact ⟨l, h, Nat.le_refl _, by simp⟩

theorem pending_pushTo (h : Squeue.Inv base l c q (.ready sq)) {accept accept' : AcceptCount}
    (hpush : accept.pushTo sq q = (accept', sq', q')) :
    (∃ l' c', Squeue.Inv base l' c' q' (.ready sq')) ∧
      ∃ n ≤ accept.count, accept' = { accept with count := accept.count - n } ∧
        pending q' sq' = pending q sq ++ List.replicate n accept.entry := by
  unfold AcceptCount.pushTo at hpush
  rcases hrun : AcceptCount.pushWhile accept.entry accept.count sq q with ⟨count', sq₁, q₁⟩
  rw [hrun] at hpush
  obtain ⟨l', h', hle, hpending⟩ := pending_pushWhile h hrun
  obtain ⟨⟨c', hsync⟩, hsame⟩ := pending_sync h' (Prod.mk.eta.symm : sq₁.sync q₁ = _)
  cases hpush
  refine ⟨⟨_, c', hsync⟩, accept.count - count', Nat.sub_le _ _, ?_, ?_⟩
  · rw [Nat.sub_sub_self hle]
  · exact hsame.trans hpending

end Pending

section Unread

variable {base f t : Nat} {l : Cqueue.Ledger Cqueue.Entry} {q q' : Cqueue.Inner Cqueue.Entry}
  {app : Cqueue.App} {cq cq' : Cqueue.CompletionQueue} {cqe : Cqueue.Entry}

theorem unread_next (h : Cqueue.Inv base l f t q (.ready cq))
    (hnext : cq.next q = some (cqe, cq')) :
    Cqueue.Inv base (l.record (.returned [cqe])) f t q (.ready cq') ∧
      Cqueue.unread q (.ready cq) = cqe :: Cqueue.unread q (.ready cq') := by
  have hinv := h.next hnext
  refine ⟨hinv, ?_⟩
  obtain ⟨rest, hposted⟩ := hinv.returned_prefix
  change (l.returned ++ [cqe]) ++ rest = l.posted at hposted
  rw [h.unread_eq, hinv.unread_eq]
  change l.posted.drop l.returned.length = cqe :: l.posted.drop (l.returned ++ [cqe]).length
  rw [← hposted, List.drop_left, List.append_assoc, List.drop_left]
  rfl

theorem unread_posts (h : Cqueue.Inv base l f t q app) {cqes : List Cqueue.Entry}
    (hinv : Cqueue.Inv base (l.posts cqes) f t q' app)
    (hreturned : (l.posts cqes).returned = l.returned) :
    Cqueue.unread q' app = Cqueue.unread q app ++ cqes := by
  rw [hinv.unread_eq, h.unread_eq, hreturned, Cqueue.Ledger.posts_posted]
  exact List.drop_append_of_le_length h.returned_prefix.length_le

theorem returned_posts (l : Cqueue.Ledger Cqueue.Entry) (cqes : List Cqueue.Entry) :
    (l.posts cqes).returned = l.returned := by
  induction cqes generalizing l with
  | nil => rfl
  | cons cqe rest ih => exact ih (l.record (.posted cqe))

end Unread

/-! ## The desk of a state -/

def requestsOf (entries : List Squeue.Entry) : Multiset Job := ↑(entries.map Job.request)

def resultsOf (cqes : List Cqueue.Entry) : Multiset Job := ↑(cqes.map Job.result)

@[simp] theorem requestsOf_nil : requestsOf [] = 0 := rfl

@[simp] theorem requestsOf_cons (entry : Squeue.Entry) (rest : List Squeue.Entry) :
    requestsOf (entry :: rest) = {.request entry} + requestsOf rest := rfl

@[simp] theorem requestsOf_append (a b : List Squeue.Entry) :
    requestsOf (a ++ b) = requestsOf a + requestsOf b := by
  simp [requestsOf]

theorem requestsOf_replicate (n : Nat) (entry : Squeue.Entry) :
    requestsOf (List.replicate n entry) = Multiset.replicate n (.request entry) := by
  rw [requestsOf, List.map_replicate, Multiset.coe_replicate]

@[simp] theorem resultsOf_cons (cqe : Cqueue.Entry) (rest : List Cqueue.Entry) :
    resultsOf (cqe :: rest) = {.result cqe} + resultsOf rest := rfl

@[simp] theorem resultsOf_nil : resultsOf [] = 0 := rfl

@[simp] theorem resultsOf_append (a b : List Cqueue.Entry) :
    resultsOf (a ++ b) = resultsOf a + resultsOf b := by
  simp [resultsOf]

theorem Reply.jobs_eq (reply : Reply) : reply.jobs = requestsOf reply.push.toList := by
  rw [Reply.jobs]
  cases reply.push <;> rfl

namespace State

/-- Everything in hand, wherever it is. -/
def jobs (σ : State) : Multiset Job :=
  requestsOf σ.backlog + requestsOf (pending σ.queue σ.sq) + requestsOf σ.working +
    resultsOf σ.overflow + resultsOf (Cqueue.unread σ.ring (.ready σ.cq))

def desk (σ : State) : Desk where
  tables := σ.tables
  jobs := σ.jobs
  net := σ.net

end State

/-- Both queues keep their invariants. -/
structure Sound (σ : State) : Prop where
  sq : ∃ base l c, Squeue.Inv base l c σ.queue (.ready σ.sq)
  cq : ∃ base l f t, Cqueue.Inv base l f t σ.ring (σ.pc.handle σ.cq)

theorem Desk.Step.idle (d : Desk) : Desk.Step d .quiet d := by
  have hnone : Desk.Step d .quiet _ := .accepts 0 (Nat.zero_le _)
  rwa [Multiset.replicate_zero, Multiset.zero_add] at hnone

/-- A step that leaves the desk as it is. -/
theorem Desk.Step.same {d d' : Desk} (h : d' = d) : Desk.Step d .quiet d' := h ▸ .idle d

theorem unread_handle (q : Cqueue.Inner Cqueue.Entry) (pc : Pc) (cq : Cqueue.CompletionQueue) :
    Cqueue.unread q (pc.handle cq) = Cqueue.unread q (.ready cq) := by
  cases pc <;> rfl

theorem Pc.handle_of_call {pc : Pc} {call : EnterCall} (h : pc.call = some call)
    (cq : Cqueue.CompletionQueue) : pc.handle cq = .ready cq := by
  cases pc <;> first | rfl | cases h

theorem Pc.handle_of_consume {pc pc' : Pc} (h : pc.consume = some pc')
    (cq : Cqueue.CompletionQueue) : pc'.handle cq = pc.handle cq := by
  unfold Pc.consume at h
  split at h <;> cases h <;> rfl

namespace Sound

variable {s : Submitter} {σ σ' : State} {label : Label}

/-- Steps that touch neither the queues nor their handles. -/
theorem keep (h : Sound σ) (hqueue : σ'.queue = σ.queue) (hsq : σ'.sq = σ.sq)
    (hring : σ'.ring = σ.ring) (hcq : σ'.pc.handle σ'.cq = σ.pc.handle σ.cq) : Sound σ' where
  sq := by
    rw [hqueue, hsq]
    exact h.sq
  cq := by
    rw [hring, hcq]
    exact h.cq

/-- Accept requests are pushed and published. -/
theorem pushTo (h : Sound σ) {accept : AcceptCount} {sq : Squeue.SubmissionQueue}
    {queue : Squeue.Inner Squeue.Entry} {pc : Pc}
    (hpush : σ.tables.accept.pushTo σ.sq σ.queue = (accept, sq, queue))
    (hhandle : pc.handle σ.cq = σ.pc.handle σ.cq) :
    Sound { σ with tables := { σ.tables with accept }, sq, queue, pc } ∧
      Desk.Step σ.desk .quiet
        (State.desk { σ with tables := { σ.tables with accept }, sq, queue, pc }) := by
  obtain ⟨base, l, c, hsq⟩ := h.sq
  obtain ⟨⟨l', c', hsq'⟩, n, hn, rfl, hpending⟩ := pending_pushTo hsq hpush
  refine ⟨⟨⟨base, l', c', hsq'⟩, hhandle ▸ h.cq⟩, ?_⟩
  have hstep : Desk.Step σ.desk .quiet _ := .accepts n hn
  have hjobs : Multiset.replicate n (Job.request σ.tables.accept.entry) + σ.jobs =
      State.jobs { σ with sq, queue } := by
    simp only [State.jobs, hpending, requestsOf_append, requestsOf_replicate]
    abel
  change Desk.Step σ.desk .quiet ⟨_, State.jobs { σ with sq, queue }, _⟩
  rw [← hjobs]
  exact hstep

theorem cleanPush (h : Sound σ) {entry : Squeue.Entry} {rest : List Squeue.Entry}
    {sq sq' : Squeue.SubmissionQueue} {queue queue' : Squeue.Inner Squeue.Entry}
    (hpc : σ.pc = .cleanSync) (hbacklog : σ.backlog = entry :: rest)
    (hsync : σ.sq.sync σ.queue = (sq, queue)) (hpush : sq.push queue entry = .ok (sq', queue')) :
    Sound { σ with backlog := rest, sq := sq', queue := queue', pc := .clean } ∧
      Desk.Step σ.desk .quiet
        (State.desk { σ with backlog := rest, sq := sq', queue := queue', pc := .clean }) := by
  obtain ⟨base, l, c, hsq⟩ := h.sq
  obtain ⟨⟨c', hsync'⟩, hsame⟩ := pending_sync hsq hsync
  obtain ⟨hpush', hpending⟩ := pending_push hsync' hpush
  have hcq := h.cq
  rw [hpc] at hcq
  refine ⟨⟨⟨_, _, _, hpush'⟩, hcq⟩, .same ?_⟩
  simp only [State.desk, State.jobs, hbacklog, hpending, hsame, requestsOf_append,
    requestsOf_cons, requestsOf_nil]
  congr 1
  abel

theorem cleanDrop (h : Sound σ) {entry : Squeue.Entry} {rest : List Squeue.Entry}
    {sq : Squeue.SubmissionQueue} {queue : Squeue.Inner Squeue.Entry}
    (hpc : σ.pc = .cleanSync) (hbacklog : σ.backlog = entry :: rest)
    (hsync : σ.sq.sync σ.queue = (sq, queue)) :
    Sound { σ with backlog := rest, sq, queue, pc := .clean } ∧
      Desk.Step σ.desk (.dropped entry)
        (State.desk { σ with backlog := rest, sq, queue, pc := .clean }) := by
  obtain ⟨base, l, c, hsq⟩ := h.sq
  obtain ⟨⟨c', hsync'⟩, hsame⟩ := pending_sync hsq hsync
  have hcq := h.cq
  rw [hpc] at hcq
  refine ⟨⟨⟨_, _, _, hsync'⟩, hcq⟩, ?_⟩
  have hjobs : σ.jobs = .request entry ::ₘ State.jobs { σ with backlog := rest, sq, queue } := by
    simp only [State.jobs, hbacklog, hsame, requestsOf_cons, ← Multiset.singleton_add]
    abel
  change Desk.Step ⟨_, σ.jobs, _⟩ _ ⟨_, State.jobs { σ with backlog := rest, sq, queue }, _⟩
  rw [hjobs]
  exact .drop

/-- The push that ends an arm, or the backlog. -/
theorem pushOrQueue (h : Sound σ) {push : Option Squeue.Entry} {sq : Squeue.SubmissionQueue}
    {queue : Squeue.Inner Squeue.Entry} {backlog : List Squeue.Entry}
    (hpush : TcpEcho.pushOrQueue σ.sq σ.queue σ.backlog push = (sq, queue, backlog)) :
    (∃ base l c, Squeue.Inv base l c queue (.ready sq)) ∧
      requestsOf backlog + requestsOf (pending queue sq) =
        requestsOf push.toList +
          (requestsOf σ.backlog + requestsOf (pending σ.queue σ.sq)) := by
  obtain ⟨base, l, c, hsq⟩ := h.sq
  cases push with
  | none =>
      cases hpush
      exact ⟨⟨_, _, _, hsq⟩, (Multiset.zero_add _).symm⟩
  | some entry =>
      simp only [TcpEcho.pushOrQueue] at hpush
      split at hpush
      · rename_i hone
        obtain ⟨hsq', hpending⟩ := pending_push hsq hone
        cases hpush
        refine ⟨⟨_, _, _, hsq'⟩, ?_⟩
        simp only [hpending, requestsOf_append, Option.toList_some]
        abel
      · cases hpush
        refine ⟨⟨_, _, _, hsq⟩, ?_⟩
        simp only [requestsOf_append, Option.toList_some]
        abel

theorem serve (h : Sound σ) {cqe : Cqueue.Entry} {cq : Cqueue.CompletionQueue} {fresh : Fresh}
    {tables : Tables} {reply : Reply} {sq : Squeue.SubmissionQueue}
    {queue : Squeue.Inner Squeue.Entry} {backlog : List Squeue.Entry} (hpc : σ.pc = .serve)
    (hnext : σ.cq.next σ.ring = some (cqe, cq)) (hfresh : fresh.Vacant σ.tables)
    (hserve : σ.tables.serve cqe.userData cqe.res fresh = some (tables, reply))
    (hpush : TcpEcho.pushOrQueue σ.sq σ.queue σ.backlog reply.push = (sq, queue, backlog)) :
    Sound { σ with cq, tables, sq, queue, backlog, net := reply.apply σ.net } ∧
      Desk.Step σ.desk (reply.event cqe)
        (State.desk { σ with cq, tables, sq, queue, backlog, net := reply.apply σ.net }) := by
  obtain ⟨hsq, hrequests⟩ := h.pushOrQueue hpush
  obtain ⟨base, l, f, t, hcq⟩ := h.cq
  rw [hpc] at hcq
  obtain ⟨hcq', hunread⟩ := unread_next hcq hnext
  refine ⟨⟨hsq, base, l.record (.returned [cqe]), f, t, ?_⟩, ?_⟩
  · change Cqueue.Inv _ _ _ _ σ.ring (σ.pc.handle cq)
    rw [hpc]
    exact hcq'
  have hbefore : σ.jobs = .result cqe ::ₘ (requestsOf σ.backlog +
      requestsOf (pending σ.queue σ.sq) + requestsOf σ.working + resultsOf σ.overflow +
      resultsOf (Cqueue.unread σ.ring (.ready cq))) := by
    simp only [State.jobs, hunread, resultsOf_cons, ← Multiset.singleton_add]
    abel
  have hafter : State.jobs { σ with cq, sq, queue, backlog } = reply.jobs +
      (requestsOf σ.backlog + requestsOf (pending σ.queue σ.sq) + requestsOf σ.working +
        resultsOf σ.overflow + resultsOf (Cqueue.unread σ.ring (.ready cq))) := by
    simp only [State.jobs, hrequests, reply.jobs_eq]
    abel
  change Desk.Step ⟨_, σ.jobs, _⟩ _ ⟨_, State.jobs { σ with cq, sq, queue, backlog }, _⟩
  rw [hbefore, hafter]
  exact .serve hfresh hserve

theorem consume (h : Sound σ) {pc : Pc} {entry : Squeue.Entry}
    {queue : Squeue.Inner Squeue.Entry} (hpc : σ.pc.consume = some pc)
    (hread : σ.queue.kernelRead = some (entry, queue)) :
    Sound { σ with queue, working := σ.working ++ [entry], pc } ∧
      Desk.Step σ.desk .quiet
        (State.desk { σ with queue, working := σ.working ++ [entry], pc }) := by
  obtain ⟨base, l, c, hsq⟩ := h.sq
  obtain ⟨hsq', hpending⟩ := pending_kernelRead hsq hread
  refine ⟨⟨⟨_, _, _, hsq'⟩, ?_⟩, .same ?_⟩
  · change ∃ base l f t, Cqueue.Inv base l f t σ.ring (pc.handle σ.cq)
    rw [Pc.handle_of_consume hpc]
    exact h.cq
  · simp only [State.desk, State.jobs, hpending, requestsOf_append, requestsOf_cons,
      requestsOf_nil]
    congr 1
    abel

section Answer

variable {entry : Squeue.Entry} {before after : List Squeue.Entry} {op : Opcode.Op}
  {cqe : Cqueue.Entry} {event : Event} {net : Net}

/-- Wherever the completion goes, the request has been answered. -/
theorem answerDesk (hworking : σ.working = before ++ entry :: after)
    (hop : Opcode.decode (.entry entry) = some op) (hkey : cqe.userData = entry.getUserData)
    (hanswer : Answer σ.net op cqe.res event net)
    (hworking' : σ'.working = before ++ after) (hnet : σ'.net = net)
    (htables : σ'.tables = σ.tables)
    (hrest : requestsOf σ'.backlog + requestsOf (pending σ'.queue σ'.sq) =
      requestsOf σ.backlog + requestsOf (pending σ.queue σ.sq))
    (hresults : resultsOf σ'.overflow + resultsOf (Cqueue.unread σ'.ring (.ready σ'.cq)) =
      {.result cqe} +
        (resultsOf σ.overflow + resultsOf (Cqueue.unread σ.ring (.ready σ.cq)))) :
    Desk.Step σ.desk event σ'.desk := by
  have hbefore : σ.jobs = .request entry ::ₘ (requestsOf σ.backlog +
      requestsOf (pending σ.queue σ.sq) + requestsOf (before ++ after) +
      (resultsOf σ.overflow + resultsOf (Cqueue.unread σ.ring (.ready σ.cq)))) := by
    simp only [State.jobs, hworking, requestsOf_append, requestsOf_cons,
      ← Multiset.singleton_add]
    abel
  have hafter : σ'.jobs = .result cqe ::ₘ (requestsOf σ.backlog +
      requestsOf (pending σ.queue σ.sq) + requestsOf (before ++ after) +
      (resultsOf σ.overflow + resultsOf (Cqueue.unread σ.ring (.ready σ.cq)))) := by
    have hjobs : σ'.jobs = requestsOf σ'.backlog + requestsOf (pending σ'.queue σ'.sq) +
        requestsOf σ'.working +
        (resultsOf σ'.overflow + resultsOf (Cqueue.unread σ'.ring (.ready σ'.cq))) := by
      rw [State.jobs]
      abel
    rw [hjobs, hrest, hresults, hworking', ← Multiset.singleton_add]
    abel
  rw [State.desk, State.desk, hbefore, hafter, hnet, htables]
  exact .answer hop hkey hanswer

theorem answer (h : Sound σ) {ring : Cqueue.Inner Cqueue.Entry}
    (hworking : σ.working = before ++ entry :: after)
    (hop : Opcode.decode (.entry entry) = some op) (hkey : cqe.userData = entry.getUserData)
    (hanswer : Answer σ.net op cqe.res event net) (hpost : σ.ring.kernelPost cqe = some ring) :
    Sound { σ with working := before ++ after, net, ring } ∧
      Desk.Step σ.desk event
        (State.desk { σ with working := before ++ after, net, ring }) := by
  obtain ⟨base, l, f, t, hcq⟩ := h.cq
  have hcq' : Cqueue.Inv base (l.posts [cqe]) f t ring (σ.pc.handle σ.cq) := hcq.kernelPost hpost
  have hunread := unread_posts hcq hcq' (returned_posts l [cqe])
  rw [unread_handle, unread_handle] at hunread
  refine ⟨⟨h.sq, base, _, f, t, hcq'⟩, ?_⟩
  refine answerDesk hworking hop hkey hanswer rfl rfl rfl rfl ?_
  simp only [hunread, resultsOf_append, resultsOf_cons, resultsOf_nil]
  abel

theorem answerOverflow (h : Sound σ) (hworking : σ.working = before ++ entry :: after)
    (hop : Opcode.decode (.entry entry) = some op) (hkey : cqe.userData = entry.getUserData)
    (hanswer : Answer σ.net op cqe.res event net) :
    Sound { σ with
        working := before ++ after
        net
        overflow := σ.overflow ++ [cqe]
        queue := Ring.raiseOverflow σ.queue } ∧
      Desk.Step σ.desk event
        (State.desk { σ with
          working := before ++ after
          net
          overflow := σ.overflow ++ [cqe]
          queue := Ring.raiseOverflow σ.queue }) := by
  obtain ⟨base, l, c, hsq⟩ := h.sq
  refine ⟨⟨⟨base, l, c, { hsq with }⟩, h.cq⟩, ?_⟩
  refine answerDesk hworking hop hkey hanswer rfl rfl rfl rfl ?_
  simp only [resultsOf_append, resultsOf_cons, resultsOf_nil]
  abel

end Answer

theorem flush (h : Sound σ) {moved left : List Cqueue.Entry} {ring : Cqueue.Inner Cqueue.Entry}
    (hflush : Ring.flush σ.ring σ.overflow = (moved, left, ring)) :
    Sound { σ with ring, overflow := left, queue := Ring.afterFlush σ.queue left } ∧
      Desk.Step σ.desk .quiet
        (State.desk { σ with
          ring, overflow := left, queue := Ring.afterFlush σ.queue left }) := by
  obtain ⟨base, l, c, hsq⟩ := h.sq
  obtain ⟨base', l', f, t, hcq⟩ := h.cq
  have hcq' := Ring.flush_inv hcq hflush
  have hunread := unread_posts hcq hcq' (returned_posts l' moved)
  rw [unread_handle, unread_handle] at hunread
  obtain ⟨hoverflow, -⟩ := Ring.flush_moves hflush
  have hqueue : Squeue.Inv base l c (Ring.afterFlush σ.queue left) (.ready σ.sq) ∧
      pending (Ring.afterFlush σ.queue left) σ.sq = pending σ.queue σ.sq := by
    unfold Ring.afterFlush
    split
    · exact ⟨{ hsq with }, rfl⟩
    · exact ⟨hsq, rfl⟩
  refine ⟨⟨⟨base, l, c, hqueue.1⟩, base', _, f, t, hcq'⟩, .same ?_⟩
  simp only [State.desk, State.jobs, hunread, hqueue.2, ← hoverflow, resultsOf_append]
  congr 1
  abel

/-- The step lemma: the queues stay sound, and every step is one on the desk. -/
theorem step (h : Sound σ) (hstep : Step s σ label σ') :
    Sound σ' ∧ Desk.Step σ.desk label.event σ'.desk := by
  cases hstep with
  | setup hpc hpush => exact h.pushTo hpush (by rw [hpc]; rfl)
  | wait hpc | waited hpc | cleanFull hpc | cleanFree hpc | submitted hpc | busy hpc | served hpc =>
      exact ⟨h.keep rfl rfl rfl (by rw [hpc]; rfl), .idle _⟩
  | exit hcall => exact ⟨h.keep rfl rfl rfl (Pc.handle_of_call hcall σ.cq).symm, .idle _⟩
  | cqStore hpc =>
      obtain ⟨base, l, f, t, hcq⟩ := h.cq
      rw [hpc] at hcq
      exact ⟨⟨h.sq, _, _, _, _, hcq.storeHead⟩, .idle _⟩
  | cqLoad hpc =>
      obtain ⟨base, l, f, t, hcq⟩ := h.cq
      rw [hpc] at hcq
      obtain ⟨f', t', hcq'⟩ := hcq.step .syncLoad
      exact ⟨⟨h.sq, _, _, _, _, hcq'⟩, .idle _⟩
  | cleanDone hpc hbacklog hsync =>
      obtain ⟨base, l, c, hsq⟩ := h.sq
      obtain ⟨⟨c', hsq'⟩, hsame⟩ := pending_sync hsq hsync
      have hcq := h.cq
      rw [hpc] at hcq
      refine ⟨⟨⟨_, _, _, hsq'⟩, hcq⟩, .same ?_⟩
      simp only [State.desk, State.jobs, hsame]
  | cleanPush hpc hbacklog hsync hpush => exact h.cleanPush hpc hbacklog hsync hpush
  | cleanDrop hpc hbacklog hsync => exact h.cleanDrop hpc hbacklog hsync
  | accept hpc hpush => exact h.pushTo hpush (by rw [hpc]; rfl)
  | serve hpc hnext hfresh hserve hpush => exact h.serve hpc hnext hfresh hserve hpush
  | consume hpc hread => exact h.consume hpc hread
  | answer before hworking hop hkey hanswer _ hpost =>
      exact h.answer hworking hop hkey hanswer hpost
  | answerOverflow before hworking hop hkey hanswer =>
      exact h.answerOverflow hworking hop hkey hanswer
  | flush _ _ hflush => exact h.flush hflush
  | otherFlags =>
      obtain ⟨base, l, c, hsq⟩ := h.sq
      exact ⟨⟨⟨base, l, c, { hsq with }⟩, h.cq⟩, .idle _⟩

/-- The server starts on rings that are empty, whatever their counters are. -/
theorem start {queue : Squeue.Inner Squeue.Entry} {ring : Cqueue.Inner Cqueue.Entry}
    (hqueue : queue.tail = queue.head) (hring : ring.tail = ring.head) (listener : Int32)
    (k₀ : UInt64) (net : Net) : Sound (State.start queue ring listener k₀ net) where
  sq := by
    have hfree : Squeue.Inv queue.head.toNat (.start queue) 0 queue .none :=
      .start queue (by simp [hqueue])
    obtain ⟨c, hinv⟩ := hfree.step .borrow
    exact ⟨_, _, c, hinv⟩
  cq := by
    have hfree : Cqueue.Inv ring.head.toNat (.start ring) 0 0 ring .none :=
      .start ring (by simp [hring])
    obtain ⟨f, t, hinv⟩ := hfree.step .borrow
    exact ⟨_, _, f, t, hinv⟩

end Sound

/-- On empty rings there is nothing in hand. -/
theorem State.desk_start {queue : Squeue.Inner Squeue.Entry} {ring : Cqueue.Inner Cqueue.Entry}
    (hqueue : queue.tail = queue.head) (hring : ring.tail = ring.head) (listener : Int32)
    (k₀ : UInt64) (net : Net) :
    (State.start queue ring listener k₀ net).desk = Desk.start listener k₀ net := by
  have hpending : pending queue queue.borrow = [] := by
    simp [pending, Squeue.pendingSlots, Squeue.Inner.borrow, Squeue.Inner.borrowShared, hqueue,
      RingSize.slotsFrom]
  have hunread : Cqueue.unread ring (.ready ring.borrow) = [] := by
    simp [Cqueue.unread, Cqueue.readHead, Cqueue.App.handle, Cqueue.Inner.borrow,
      Cqueue.Inner.borrowShared, hring, RingSize.slotsFrom]
  simp [State.desk, State.jobs, State.start, Desk.start, hpending, hunread]

/-- The events that are seen of a run. -/
def eventsOf (labels : List Label) : List Event := labels.map Label.event

/-- Every stretch of a run of the server is one on the desk. -/
theorem Sound.stretch {s : Submitter} {σ σ' : State} {labels : List Label} (h : Sound σ)
    (run : Run (Step s) σ labels σ') :
    Sound σ' ∧ Run Desk.Step σ.desk (eventsOf labels) σ'.desk := by
  obtain ⟨d, hrun, hsound, rfl⟩ := run.simulateThrough Label.event
    (R := fun σ d => Sound σ ∧ σ.desk = d) ⟨h, rfl⟩
    (by
      rintro σ label σ' _ ⟨hsound, rfl⟩ hstep
      obtain ⟨hsound', hdesk⟩ := hsound.step hstep
      exact ⟨σ'.desk, hdesk, hsound', rfl⟩)
  exact ⟨hsound, hrun⟩

/-- The run lemma: every run of the server is a run on the desk. -/
theorem Sound.run {s : Submitter} {queue : Squeue.Inner Squeue.Entry}
    {ring : Cqueue.Inner Cqueue.Entry} (hqueue : queue.tail = queue.head)
    (hring : ring.tail = ring.head) {listener : Int32} {k₀ : UInt64} {net : Net}
    {labels : List Label} {σ : State}
    (run : Run (Step s) (State.start queue ring listener k₀ net) labels σ) :
    Sound σ ∧ Run Desk.Step (Desk.start listener k₀ net) (eventsOf labels) σ.desk := by
  rw [← State.desk_start hqueue hring listener k₀ net]
  exact (Sound.start hqueue hring listener k₀ net).stretch run

end IoUring.TcpEcho
