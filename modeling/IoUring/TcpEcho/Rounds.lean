import IoUring.TcpEcho.Lost
import IoUring.TcpEcho.Withheld

/-!
# Round by round

A round begins when a wait ends. What the server pushes while it serves
completions is published only when it cleans its backlog in the next round, so
the wait between the two is without it. That keeps the requests of a round from
the kernel for the whole of the next one, and it lets the queue fill up with
entries which no submission can take.
-/

namespace IoUring.TcpEcho

open Foundation Submit

/-- The tokens served in the round before and in this one. -/
structure Rounds where
  previous : List UInt64
  current : List UInt64

namespace Rounds

def start : Rounds where
  previous := []
  current := []

def record (r : Rounds) : Label → Rounds
  | .waited _ => { previous := r.current, current := [] }
  | .served cqe _ => { r with current := r.current ++ [cqe.userData] }
  | .seen _ | .submitted _ | .busy _ => r

def of (labels : List Label) : Rounds := ledgerAfter record start labels

/-- The tokens whose requests the server still keeps. -/
def held (r : Rounds) : Pc → List UInt64
  | .serve | .wait | .waiting _ _ => r.current
  | .cqStore | .cqLoad => r.previous
  | _ => []

/-- The tokens that no visible completion is for. -/
def unseen (r : Rounds) : Pc → List UInt64
  | .clean | .submitting _ _ | .cleanSync | .accept | .serve => r.previous
  | _ => []

end Rounds

/-- Nothing has been served in this round. -/
def Pc.calm : Pc → Bool
  | .serve | .wait | .waiting _ _ | .exited => false
  | _ => true

/-! ## No token is served in two rounds in a row -/

structure Spaced (k₀ : UInt64) (r : Rounds) (σ : State) : Prop where
  held : ∀ k ∈ r.held σ.pc, k ≠ k₀ → k ∉ keysOf Job.key σ.handed
  unseen : ∀ k ∈ r.unseen σ.pc, k ≠ k₀ → k ∉ (visible σ.ring σ.cq).map Cqueue.Entry.userData
  calm : σ.pc.calm = true → r.current = []

theorem mem_keysOf_resultsOf {k : UInt64} {cqes : List Cqueue.Entry} :
    k ∈ keysOf Job.key (resultsOf cqes) ↔ k ∈ cqes.map Cqueue.Entry.userData := by
  rw [keysOf, resultsOf, Multiset.map_coe, List.map_map, Multiset.mem_coe]
  rfl

namespace Spaced

variable {s : Submitter} {listener : Int32} {k₀ : UInt64} {r : Rounds} {σ σ' : State}
  {label : Label} {sessions : Sessions}

/-- Steps that give the kernel no job and the server no completion. -/
theorem keep (h : Spaced k₀ r σ) (hheld : r.held σ'.pc = r.held σ.pc)
    (hunseen : r.unseen σ'.pc = r.unseen σ.pc) (hcalm : σ'.pc.calm = σ.pc.calm)
    (hhanded : keysOf Job.key σ'.handed = keysOf Job.key σ.handed)
    (hvisible : visible σ'.ring σ'.cq = visible σ.ring σ.cq) : Spaced k₀ r σ' where
  held := by
    rw [hheld, hhanded]
    exact h.held
  unseen := by
    rw [hunseen, hvisible]
    exact h.unseen
  calm := by
    rw [hcalm]
    exact h.calm

/-- Steps that may give the kernel jobs, before anything is served. -/
theorem publish (h : Spaced k₀ r σ) (hcalm : σ.pc.calm = true) (hheld : r.held σ'.pc ⊆ r.current)
    (hunseen : r.unseen σ'.pc ⊆ r.unseen σ.pc)
    (hvisible : visible σ'.ring σ'.cq = visible σ.ring σ.cq) : Spaced k₀ r σ' where
  held := by
    intro k hk
    have hmem := hheld hk
    rw [h.calm hcalm] at hmem
    cases hmem
  unseen := by
    rw [hvisible]
    exact fun k hk => h.unseen k (hunseen hk)
  calm := fun _ => h.calm hcalm

/-- The loop over the completions takes one. -/
theorem serve (h : Spaced k₀ r σ) (hsound : Sound σ) (hinv : Inv listener k₀ σ.desk sessions)
    {cqe : Cqueue.Entry} {cq : Cqueue.CompletionQueue} {tables : Tables} {reply : Reply}
    {sq : Squeue.SubmissionQueue} {queue : Squeue.Inner Squeue.Entry}
    {backlog : List Squeue.Entry} (hpc : σ.pc = .serve)
    (hnext : σ.cq.next σ.ring = some (cqe, cq))
    (hpush : pushOrQueue σ.sq σ.queue σ.backlog reply.push = (sq, queue, backlog)) :
    Spaced k₀ (r.record (.served cqe reply))
      { σ with cq, tables, sq, queue, backlog, net := reply.apply σ.net } := by
  obtain ⟨base, l, f, t, hcq⟩ := hsound.cq
  rw [hpc] at hcq
  have hunread := (unread_next hcq hnext).2
  have hvisible := visible_next hcq hnext
  have hhanded : σ.handed = .result cqe ::ₘ State.handed { σ with cq, queue } := by
    have hqueue : Squeue.unconsumed queue = Squeue.unconsumed σ.queue := by
      obtain ⟨base, l, c, hsq⟩ := hsound.sq
      exact (withheld_pushOrQueue hsq hpush).1
    simp only [State.handed, hunread, hqueue, resultsOf_cons, ← Multiset.singleton_add]
    abel
  refine ⟨?_, ?_, ?_⟩
  · intro k hk hne
    change k ∉ keysOf Job.key (State.handed { σ with cq, queue })
    simp only [hpc, Rounds.held, Rounds.record, List.mem_append, List.mem_singleton] at hk
    obtain hk | rfl := hk
    · have hbefore := h.held k (by rwa [hpc]) hne
      rw [hhanded, keysOf_cons, Multiset.mem_cons, not_or] at hbefore
      exact hbefore.2
    · -- the completion was the only job of its token
      have honce : Ticketed Job.key (· = k₀) _ _ σ.jobs := hinv.work
      rw [State.jobs_eq hsound, hhanded, Multiset.add_cons] at honce
      have hothers := honce.others (w := Job.result cqe) hne
      rw [keysOf_add, Multiset.mem_add, not_or] at hothers
      exact hothers.2
  · intro k hk hne
    change k ∉ (visible σ.ring cq).map Cqueue.Entry.userData
    have hbefore := h.unseen k (by simpa [hpc, Rounds.unseen, Rounds.record] using hk) hne
    rw [hvisible, List.map_cons, List.mem_cons, not_or] at hbefore
    exact hbefore.2
  · simp [hpc, Pc.calm]

/-- What the server serves is none of what it has served in this round or the one before. -/
theorem apart (h : Spaced k₀ r σ) (hsound : Sound σ) {cqe : Cqueue.Entry}
    {cq : Cqueue.CompletionQueue} (hpc : σ.pc = .serve)
    (hnext : σ.cq.next σ.ring = some (cqe, cq)) (hk : cqe.userData ≠ k₀) :
    cqe.userData ∉ r.current ∧ cqe.userData ∉ r.previous := by
  obtain ⟨base, l, f, t, hcq⟩ := hsound.cq
  rw [hpc] at hcq
  have hvisible := visible_next hcq hnext
  have hunread := (unread_next hcq hnext).2
  constructor
  · intro hmem
    refine h.held _ (by rwa [hpc]) hk ?_
    refine Multiset.mem_map.mpr ⟨.result cqe, ?_, rfl⟩
    rw [State.handed, hunread]
    simp
  · intro hmem
    refine h.unseen _ (by rwa [hpc]) hk ?_
    rw [hvisible, List.map_cons]
    exact List.mem_cons_self

/-- An answered request leaves its token with the kernel. -/
theorem keysOf_answered {entry : Squeue.Entry} {before after : List Squeue.Entry}
    {cqe : Cqueue.Entry} {overflow : List Cqueue.Entry} {ring : Cqueue.Inner Cqueue.Entry}
    {queue : Squeue.Inner Squeue.Entry} (hworking : σ.working = before ++ entry :: after)
    (hkey : cqe.userData = entry.getUserData)
    (hqueue : Squeue.unconsumed queue = Squeue.unconsumed σ.queue)
    (hresults : resultsOf overflow + resultsOf (Cqueue.unread ring (.ready σ.cq)) =
      {.result cqe} + (resultsOf σ.overflow + resultsOf (Cqueue.unread σ.ring (.ready σ.cq)))) :
    keysOf Job.key (State.handed { σ with working := before ++ after, queue, overflow, ring }) =
      keysOf Job.key σ.handed := by
  have hbefore : σ.handed = .request entry ::ₘ (requestsOf (Squeue.unconsumed σ.queue) +
      requestsOf (before ++ after) +
      (resultsOf σ.overflow + resultsOf (Cqueue.unread σ.ring (.ready σ.cq)))) := by
    simp only [State.handed, hworking, requestsOf_append, requestsOf_cons,
      ← Multiset.singleton_add]
    abel
  have hafter : State.handed { σ with working := before ++ after, queue, overflow, ring } =
      .result cqe ::ₘ (requestsOf (Squeue.unconsumed σ.queue) + requestsOf (before ++ after) +
        (resultsOf σ.overflow + resultsOf (Cqueue.unread σ.ring (.ready σ.cq)))) := by
    rw [State.handed, Multiset.add_assoc, hresults, hqueue, ← Multiset.singleton_add]
    abel
  rw [hbefore, hafter, keysOf_cons, keysOf_cons, Job.key, Job.key, hkey]

/-- The step lemma. -/
theorem step (h : Spaced k₀ r σ) (hsound : Sound σ) (hinv : Inv listener k₀ σ.desk sessions)
    (hstep : Step s σ label σ') : Spaced k₀ (r.record label) σ' := by
  cases hstep with
  | setup hpc => exact h.publish (by rw [hpc]; rfl) (List.Subset.refl _) (List.nil_subset _) rfl
  | wait hpc => exact h.keep (by rw [hpc]; rfl) (by rw [hpc]; rfl) (by rw [hpc]; rfl) rfl rfl
  | waited hpc =>
      refine ⟨?_, by simp [Rounds.unseen], fun _ => rfl⟩
      have hheld := h.held
      rw [hpc] at hheld
      exact hheld
  | exit => exact ⟨by simp [Rounds.held], by simp [Rounds.unseen], by simp [Pc.calm]⟩
  | cqStore hpc => exact h.keep (by rw [hpc]; rfl) (by rw [hpc]; rfl) (by rw [hpc]; rfl) rfl rfl
  | cqLoad hpc =>
      refine ⟨by simp [Rounds.held], ?_, fun _ => h.calm (by rw [hpc]; rfl)⟩
      intro k hk hne hmem
      refine h.held k (by rwa [hpc]) hne ?_
      -- everything posted is visible now, and what the server keeps is not posted
      have hunread := List.map_subset Cqueue.Entry.userData (visible_subset σ.ring _) hmem
      rw [State.handed, keysOf_add, Multiset.mem_add]
      exact .inr (mem_keysOf_resultsOf.mpr hunread)
  | cleanFull hpc | cleanFree hpc | submitted hpc | busy hpc =>
      exact h.keep (by rw [hpc]; rfl) (by rw [hpc]; rfl) (by rw [hpc]; rfl) rfl rfl
  | cleanDone hpc | cleanPush hpc | cleanDrop hpc | accept hpc =>
      exact h.publish (by rw [hpc]; rfl) (by simp [Rounds.held])
        (by rw [hpc]; exact List.Subset.refl _) rfl
  | serve hpc hnext _ _ hpush => exact h.serve hsound hinv hpc hnext hpush
  | served hpc =>
      refine ⟨?_, by simp [Rounds.unseen], by simp [Pc.calm]⟩
      have hheld := h.held
      rw [hpc] at hheld
      exact hheld
  | @consume pc entry queue hpc hread =>
      obtain ⟨base, l, c, hsq⟩ := hsound.sq
      have hqueue := (unconsumed_kernelRead hsq hread).1
      have hhanded : State.handed { σ with queue, working := σ.working ++ [entry], pc } =
          σ.handed := by
        simp only [State.handed, hqueue, requestsOf_append, requestsOf_cons, requestsOf_nil]
        abel
      have hsame : r.held pc = r.held σ.pc ∧ r.unseen pc = r.unseen σ.pc ∧
          pc.calm = σ.pc.calm := by
        unfold Pc.consume at hpc
        split at hpc <;> cases hpc <;> simp [Rounds.held, Rounds.unseen, Pc.calm, *]
      exact h.keep hsame.1 hsame.2.1 hsame.2.2 (congrArg (keysOf Job.key) hhanded) rfl
  | @answer entry after op cqe event net ring before hworking hop hkey hanswer hroom hpost =>
      obtain ⟨base, l, f, t, hcq⟩ := hsound.cq
      have hcq' : Cqueue.Inv base (l.posts [cqe]) f t ring (σ.pc.handle σ.cq) :=
        hcq.kernelPost hpost
      have hunread := unread_posts hcq hcq' (returned_posts l [cqe])
      rw [unread_handle, unread_handle] at hunread
      refine h.keep rfl rfl rfl (keysOf_answered hworking hkey rfl ?_) ?_
      · simp only [hunread, resultsOf_append, resultsOf_cons, resultsOf_nil]
        abel
      · exact visible_posts hcq (by cases σ.pc <;> rfl) hunread (unread_handle _ _ _).symm
  | answerOverflow before hworking hop hkey =>
      refine h.keep rfl rfl rfl (keysOf_answered hworking hkey rfl ?_) rfl
      simp only [resultsOf_append, resultsOf_cons, resultsOf_nil]
      abel
  | @flush call moved left ring hcall hflag hflush =>
      obtain ⟨base, l, f, t, hcq⟩ := hsound.cq
      have hunread := unread_posts hcq (Ring.flush_inv hcq hflush) (returned_posts l moved)
      rw [unread_handle, unread_handle] at hunread
      have hqueue : Squeue.unconsumed (Ring.afterFlush σ.queue left) =
          Squeue.unconsumed σ.queue := by
        unfold Ring.afterFlush
        split <;> rfl
      refine h.keep rfl rfl rfl (congrArg (keysOf Job.key) ?_) ?_
      · simp only [State.handed, hunread, hqueue, ← (Ring.flush_moves hflush).1,
          resultsOf_append]
        abel
      · exact visible_posts hcq (by cases σ.pc <;> rfl) hunread (unread_handle _ _ _).symm
  | otherFlags => exact h.keep rfl rfl rfl rfl rfl

end Spaced

section Runs

variable {s : Submitter} {queue : Squeue.Inner Squeue.Entry} {ring : Cqueue.Inner Cqueue.Entry}
  {listener : Int32} {k₀ : UInt64} {net : Net} {labels : List Label} {σ σ' : State}

theorem Spaced.run (hqueue : queue.tail = queue.head) (hring : ring.tail = ring.head)
    (run : Run (Step s) (State.start queue ring listener k₀ net) labels σ) :
    Spaced k₀ (Rounds.of labels) σ := by
  induction run with
  | start => exact ⟨nofun, nofun, fun _ => rfl⟩
  | next run hstep ih =>
      obtain ⟨hsound, sessions, -, hinv⟩ := agrees hqueue hring run
      rw [Rounds.of, ledgerAfter_snoc]
      exact ih.step hsound hinv hstep

/-- What an arm asks for is given to the kernel only at the end of the next wait: until then no
request or completion of a token that was served is anywhere with the kernel. So a connection is
served at most once in any two rounds. -/
theorem served_apart (hqueue : queue.tail = queue.head) (hring : ring.tail = ring.head)
    (run : Run (Step s) (State.start queue ring listener k₀ net) labels σ) :
    (∀ k ∈ (Rounds.of labels).held σ.pc, k ≠ k₀ → k ∉ keysOf Job.key σ.handed) ∧
      ∀ cqe reply σ', Step s σ (.served cqe reply) σ' → cqe.userData ≠ k₀ →
        cqe.userData ∉ (Rounds.of labels).current ∧
          cqe.userData ∉ (Rounds.of labels).previous := by
  have hspaced := Spaced.run hqueue hring run
  have hsound := (agrees hqueue hring run).1
  refine ⟨hspaced.held, ?_⟩
  intro cqe reply σ' hstep hk
  cases hstep with
  | serve hpc hnext => exact hspaced.apart hsound hpc hnext hk

/-- The second connection is served in the round after the first one's, and has nothing with the
kernel after that. -/
theorem served_apart_holding :
    ∃ labels reply σ, Run (Step plainSubmitter) .small labels .holding ∧
      Step plainSubmitter .holding (.served ⟨2, 1, 0⟩ reply) σ ∧
      (Rounds.of labels).previous = [1] ∧ 2 ∉ (Rounds.of labels).previous ∧
      2 ∉ keysOf Job.key σ.handed := by
  obtain ⟨before, reading⟩ := reading_run
  have run := reading.trans holding_reached
  have step := @Step.serve plainSubmitter .holding ⟨2, 1, 0⟩ _ ⟨9, 9, 24576⟩ _ _ _ _ _ rfl rfl
    ⟨by decide +kernel, by decide +kernel, reading_vacant⟩ rfl rfl
  have hrounds : Rounds.of (before ++ holdingLabels) = ⟨[1], []⟩ := by
    rw [Rounds.of, ledgerAfter_append]
    rfl
  have hapart := ((served_apart rfl rfl run).2 _ _ _ step (by decide)).2
  have hheld := (served_apart rfl rfl (run.next step)).1 2
  rw [Rounds.of, ledgerAfter_snoc, ← Rounds.of, hrounds] at hheld
  exact ⟨_, _, _, run, step, by rw [hrounds], hapart,
    hheld (List.mem_singleton.mpr rfl) (by decide)⟩

end Runs

/-! ## When a request is lost -/

/-- How much of the queue is withheld, and in a submission from the backlog what is left for the
kernel to take. -/
def Roomy (r : Rounds) (σ : State) : Prop :=
  match σ.pc with
  | .serve | .wait | .waiting _ _ => (withheld σ.queue σ.sq).length ≤ r.current.length
  | .cqStore | .cqLoad | .clean => (withheld σ.queue σ.sq).length < σ.queue.slots
  | .submitting _ left =>
      (Squeue.unconsumed σ.queue).length ≤ left ∧
        (withheld σ.queue σ.sq).length < σ.queue.slots
  | .cleanSync => (pending σ.queue σ.sq).length < σ.queue.slots
  | .setup | .accept | .exited => True

/-- A submission from the backlog that succeeds takes all that it is asked to. -/
def Label.Full : Label → Prop
  | .submitted left => left = 0
  | .seen _ | .waited _ | .busy _ | .served _ _ => True

instance (label : Label) : Decidable label.Full :=
  match label with
  | .submitted left => inferInstanceAs (Decidable (left = 0))
  | .seen _ | .waited _ | .busy _ | .served _ _ => inferInstanceAs (Decidable True)

namespace Roomy

variable {s : Submitter} {r : Rounds} {σ σ' : State} {label : Label}

theorem slots_step (hsound : Sound σ) (hstep : Step s σ label σ') :
    σ'.queue.slots = σ.queue.slots := by
  obtain ⟨base, l, c, hsq⟩ := hsound.sq
  cases hstep with
  | setup _ hpush | accept _ hpush => exact slots_pushTo hpush
  | cleanDone _ _ hsync | cleanDrop _ _ hsync =>
      cases hsync
      rfl
  | cleanPush _ _ hsync hpush =>
      cases hsync
      exact (slots_push hpush).trans rfl
  | serve _ _ _ _ hpush => exact (withheld_pushOrQueue hsq hpush).2.1
  | consume _ hread =>
      unfold Squeue.Inner.kernelRead at hread
      split at hread <;> cases hread
      rfl
  | @flush call moved left =>
      change (Ring.afterFlush σ.queue left).slots = _
      unfold Ring.afterFlush
      split <;> rfl
  | _ => rfl

/-- The step lemma: while submissions take everything and rounds are short, nothing is dropped. -/
theorem step (h : Roomy r σ) (hsound : Sound σ) (hslots : 2 ≤ σ.queue.slots)
    (hfull : label.Full) (hshort : r.current.length < σ.queue.slots)
    (hstep : Step s σ label σ') :
    Roomy (r.record label) σ' ∧ ∀ e, label.event ≠ .dropped e := by
  obtain ⟨base, l, c, hsq⟩ := hsound.sq
  cases hstep with
  | setup hpc hpush =>
      refine ⟨?_, nofun⟩
      simp [Roomy, (unconsumed_pushTo hsq hpush).2]
  | wait hpc =>
      rw [Roomy, hpc] at h
      exact ⟨h, nofun⟩
  | waited hpc =>
      rw [Roomy, hpc] at h
      exact ⟨Nat.lt_of_le_of_lt h hshort, nofun⟩
  | exit => exact ⟨trivial, nofun⟩
  | cqStore hpc | cqLoad hpc =>
      rw [Roomy, hpc] at h
      exact ⟨h, nofun⟩
  | cleanFull hpc _ hcall =>
      rw [Roomy, hpc] at h
      exact ⟨⟨(toSubmit_eq hcall).ge, h⟩, nofun⟩
  | cleanFree hpc hfree =>
      refine ⟨?_, nofun⟩
      have hle := length_pending_le hsq
      have hne : ¬ σ.sq.len.toNat = σ.queue.slots := by
        rw [← Squeue.SubmissionQueue.isFull_iff_len, hfree]
        simp
      change (pending σ.queue σ.sq).length < σ.queue.slots
      omega
  | submitted hpc =>
      rw [Roomy, hpc] at h
      obtain ⟨hleft, hheld⟩ := h
      cases hfull
      refine ⟨?_, nofun⟩
      change (pending σ.queue σ.sq).length < σ.queue.slots
      rw [pending_split hsq, List.length_append, Nat.le_zero.mp hleft, Nat.zero_add]
      exact hheld
  | busy => exact ⟨trivial, nofun⟩
  | cleanDone => exact ⟨trivial, nofun⟩
  | @cleanPush entry rest sq queue sq' queue' hpc hbacklog hsync hpush =>
      refine ⟨?_, nofun⟩
      obtain ⟨⟨c', hsq'⟩, -⟩ := pending_sync hsq hsync
      have hheld : (withheld queue' sq').length = 1 := by
        rw [(unconsumed_push hsq' hpush).2, (unconsumed_sync hsq hsync).2.1]
        rfl
      have hsame : queue'.slots = σ.queue.slots := by
        cases hsync
        exact (slots_push hpush).trans rfl
      change (withheld queue' sq').length < queue'.slots
      omega
  | cleanDrop hpc hbacklog hsync hpush =>
      -- the queue is not full after the publication
      rw [Roomy, hpc] at h
      have hlen := (unconsumed_sync hsq hsync).2.2
      have herr := of_pushError hpush
      cases hsync
      change _ = σ.queue.slots at herr
      simp only at h
      omega
  | accept hpc hpush =>
      refine ⟨?_, nofun⟩
      simp [Roomy, (unconsumed_pushTo hsq hpush).2]
  | serve hpc hnext hfresh hserve hpush =>
      rw [Roomy, hpc] at h
      have hheld := (withheld_pushOrQueue hsq hpush).2.2
      refine ⟨?_, fun e => Reply.event_ne_dropped⟩
      simp only [Roomy, hpc, Rounds.record, List.length_append, List.length_singleton]
      omega
  | served hpc =>
      rw [Roomy, hpc] at h
      exact ⟨h, nofun⟩
  | @consume pc entry queue hpc hread =>
      refine ⟨?_, nofun⟩
      obtain ⟨hqueue, hheld⟩ := unconsumed_kernelRead hsq hread
      have hsame := slots_step hsound (Step.consume hpc hread : Step s σ _ _)
      unfold Pc.consume at hpc
      split at hpc
      · rename_i heq
        cases hpc
        simp only [Roomy, heq] at h
        simp only [Roomy, Rounds.record, hheld]
        exact h
      · rename_i heq
        cases hpc
        simp only [Roomy, heq, hqueue, List.length_cons] at h
        simp only [Roomy, hheld]
        change _ ∧ _ < queue.slots
        change queue.slots = _ at hsame
        omega
      · cases hpc
  | answer before hworking hop hkey hanswer =>
      exact ⟨h, fun e => hanswer.ne_dropped⟩
  | answerOverflow before hworking hop hkey hanswer =>
      exact ⟨h, fun e => hanswer.ne_dropped⟩
  | flush =>
      refine ⟨?_, nofun⟩
      unfold Ring.afterFlush
      split <;> exact h
  | otherFlags => exact ⟨h, nofun⟩

end Roomy

/-- From a wait to the backlog, with nothing for a call to submit; or the program has ended. -/
def Pc.Fruitless : Pc → Prop
  | .waiting call left | .submitting call left => call.toSubmit = 0 ∧ left = 0
  | .setup | .accept | .serve => False
  | .wait | .cqStore | .cqLoad | .clean | .cleanSync | .exited => True

/-- The queue is full of entries that no call can take, and the server is on its way to the
backlog. -/
structure Overrun (kept : List Squeue.Entry) (backlog : List Squeue.Entry) (σ : State) :
    Prop where
  kept_eq : withheld σ.queue σ.sq = kept
  full : kept.length = σ.queue.slots
  backlog_eq : σ.backlog = backlog
  pc : σ.pc.Fruitless

namespace Overrun

variable {s : Submitter} {σ σ' : State} {label : Label} {kept : List Squeue.Entry}
  {backlog : List Squeue.Entry}

/-- Nothing is published that the kernel could take, and the handle counts a full queue. -/
theorem counts (h : Overrun kept backlog σ) (hsound : Sound σ) :
    Squeue.unconsumed σ.queue = [] ∧ (pending σ.queue σ.sq).length = σ.queue.slots ∧
      σ.sq.len.toNat = σ.queue.slots := by
  obtain ⟨base, l, c, hsq⟩ := hsound.sq
  obtain ⟨hlen, hslots⟩ := length_pending_le hsq
  have hsplit := congrArg List.length (pending_split hsq)
  rw [List.length_append, h.kept_eq, h.full] at hsplit
  refine ⟨List.length_eq_zero_iff.mp ?_, ?_, ?_⟩ <;> omega

/-- Nor is there room once the queue has been published. -/
theorem no_push (h : Overrun kept backlog σ) (hsound : Sound σ) {entry : Squeue.Entry}
    {sq sq' : Squeue.SubmissionQueue} {queue queue' : Squeue.Inner Squeue.Entry}
    (hsync : σ.sq.sync σ.queue = (sq, queue)) (hpush : sq.push queue entry = .ok (sq', queue')) :
    False := by
  obtain ⟨base, l, c, hsq⟩ := hsound.sq
  have hcount := (unconsumed_sync hsq hsync).2.2
  have hroom := (Squeue.SubmissionQueue.of_push hpush).1
  cases hsync
  exact hroom (hcount.trans (h.counts hsound).2.1)

/-- The step lemma. -/
theorem step {entry : Squeue.Entry} {rest : List Squeue.Entry}
    (h : Overrun kept (entry :: rest) σ) (hsound : Sound σ) (hbusy : ∀ left, label ≠ .busy left)
    (hstep : Step s σ label σ') :
    label.event = .dropped entry ∨ Overrun kept (entry :: rest) σ' := by
  obtain ⟨hnone, -, hlen⟩ := h.counts hsound
  have hpc := h.pc
  cases hstep with
  | setup heq | accept heq | serve heq | served heq =>
      rw [heq] at hpc
      cases hpc
  | wait heq hcall | cleanFull heq _ hcall =>
      have hzero := toSubmit_eq hcall
      rw [hnone] at hzero
      exact .inr ⟨h.kept_eq, h.full, h.backlog_eq, UInt32.toNat_inj.mp hzero, hzero⟩
  | cleanFree heq hfree =>
      rw [(Squeue.SubmissionQueue.isFull_iff_len σ.queue).mpr hlen] at hfree
      cases hfree
  | busy => exact absurd rfl (hbusy _)
  | cleanDone heq hbacklog =>
      rw [h.backlog_eq] at hbacklog
      cases hbacklog
  | cleanPush _ _ hsync hpush => exact (h.no_push hsound hsync hpush).elim
  | cleanDrop heq hbacklog =>
      rw [h.backlog_eq] at hbacklog
      cases hbacklog
      exact .inl rfl
  | consume heq =>
      unfold Pc.consume at heq
      split at heq
      · rename_i hpc'
        rw [hpc'] at hpc
        cases hpc.2
      · rename_i hpc'
        rw [hpc'] at hpc
        cases hpc.2
      · cases heq
  | @flush call moved left ring =>
      have hqueue : withheld (Ring.afterFlush σ.queue left) σ.sq = withheld σ.queue σ.sq ∧
          (Ring.afterFlush σ.queue left).slots = σ.queue.slots := by
        unfold Ring.afterFlush
        split <;> exact ⟨rfl, rfl⟩
      exact .inr ⟨hqueue.1.trans h.kept_eq, h.full.trans hqueue.2.symm, h.backlog_eq, h.pc⟩
  | answer | answerOverflow | otherFlags =>
      exact .inr ⟨h.kept_eq, h.full, h.backlog_eq, h.pc⟩
  | waited | exit | cqStore | cqLoad | submitted =>
      exact .inr ⟨h.kept_eq, h.full, h.backlog_eq, trivial⟩

/-- Past its submission the server can do nothing but drop the request. -/
theorem drops {entry : Squeue.Entry} {rest : List Squeue.Entry}
    (h : Overrun kept (entry :: rest) σ) (hsound : Sound σ) (hpc : σ.pc = .cleanSync)
    (hstep : Step s σ label σ') : label.event = .dropped entry ∨ σ'.pc = .cleanSync := by
  cases hstep with
  | cleanDone _ hbacklog =>
      rw [h.backlog_eq] at hbacklog
      cases hbacklog
  | cleanPush _ _ hsync hpush => exact (h.no_push hsound hsync hpush).elim
  | cleanDrop _ hbacklog =>
      rw [h.backlog_eq] at hbacklog
      cases hbacklog
      exact .inl rfl
  | answer | answerOverflow | flush | otherFlags => exact .inr hpc
  | setup heq | wait heq | waited heq | exit heq | cqStore heq | cqLoad heq | cleanFull heq
  | cleanFree heq | submitted heq | busy heq | accept heq | serve heq | served heq
  | consume heq =>
      rw [hpc] at heq
      cases heq

end Overrun

section Loss

variable {s : Submitter} {queue : Squeue.Inner Squeue.Entry} {ring : Cqueue.Inner Cqueue.Entry}
  {listener : Int32} {k₀ : UInt64} {net : Net} {labels labels' : List Label} {σ σ' : State}

/-- No request is dropped as long as every round serves fewer completions than the queue has
entries and the kernel takes all entries of each submission from the backlog that succeeds. A
wait may leave entries, and both may fail with EBUSY. -/
theorem no_request_lost (hqueue : queue.tail = queue.head) (hring : ring.tail = ring.head)
    (hslots : 2 ≤ queue.slots)
    (run : Run (Step s) (State.start queue ring listener k₀ net) labels σ)
    (hfull : ∀ label ∈ labels, label.Full)
    (hshort : ∀ a, a <+: labels → (Rounds.of a).current.length < queue.slots)
    (e : Squeue.Entry) : .dropped e ∉ eventsOf labels := by
  suffices hall : Roomy (Rounds.of labels) σ ∧ σ.queue.slots = queue.slots ∧
      ∀ e, .dropped e ∉ eventsOf labels from hall.2.2 e
  induction run with
  | start => exact ⟨trivial, rfl, fun _ => List.not_mem_nil⟩
  | @next labels σ label σ' run hstep ih =>
      obtain ⟨hroomy, hsame, hkept⟩ := ih
        (fun label hlabel => hfull label (List.mem_append_left _ hlabel))
        (fun a ha => hshort a (ha.trans (List.prefix_append _ _)))
      have hsound := (agrees hqueue hring run).1
      obtain ⟨hroomy', hnow⟩ := hroomy.step hsound (hsame ▸ hslots)
        (hfull label (by simp)) (hsame ▸ hshort labels (List.prefix_append _ _)) hstep
      refine ⟨?_, (Roomy.slots_step hsound hstep).trans hsame, ?_⟩
      · rw [Rounds.of, ledgerAfter_snoc]
        exact hroomy'
      · intro e he
        rw [eventsOf, List.map_append, List.mem_append] at he
        obtain he | he := he
        · exact hkept e he
        · exact hnow e (List.mem_singleton.mp he).symm

theorem no_request_lost_small :
    ∃ labels σ, Run (Step plainSubmitter) .small labels σ ∧ (Rounds.of labels).current = [0] ∧
      .dropped (pollEntry 5 1) ∉ eventsOf labels := by
  have run : Run (Step plainSubmitter) .small [] _ := .start
  have run := (run.next (.setup rfl rfl)).next (.wait rfl rfl)
  have run := (run.next (.consume rfl rfl)).next (.consume rfl rfl)
  have run := run.next (@Step.answer _ _ _ _ _ ⟨0, 5, 0⟩ _ _ _ [] rfl (decode_acceptEntry 4 0) rfl
    (.accept rfl (by decide) (by decide +kernel)) rfl rfl)
  have run := out_of_wait_full run rfl (by decide +kernel) rfl rfl rfl
  have run := run.next (@Step.serve _ _ ⟨0, 5, 0⟩ _ ⟨1, 0, 0⟩ _ _ _ _ _ rfl rfl
    ⟨by decide +kernel, rfl, nofun⟩ rfl rfl)
  refine ⟨_, _, run, rfl, no_request_lost rfl rfl (by decide +kernel) run ?_ ?_ _⟩
  · decide +kernel
  · simp only [← List.mem_inits]
    decide +kernel

/-- But where a wait begins with a queue full of withheld requests and more in the backlog, the
first of these never reaches the queue: until it is dropped nothing changes, no call submits
anything, the server does not get past its backlog, and what it does there is to drop the
request; unless a submission of nothing is answered with EBUSY. -/
theorem overrun_drops (hqueue : queue.tail = queue.head) (hring : ring.tail = ring.head)
    (run : Run (Step s) (State.start queue ring listener k₀ net) labels σ) (hpc : σ.pc = .wait)
    (hfull : (withheld σ.queue σ.sq).length = σ.queue.slots) {entry : Squeue.Entry}
    {rest : List Squeue.Entry} (hbacklog : σ.backlog = entry :: rest)
    (run' : Run (Step s) σ labels' σ') (hbusy : ∀ left, .busy left ∉ labels') :
    .dropped entry ∈ eventsOf labels' ∨
      withheld σ'.queue σ'.sq = withheld σ.queue σ.sq ∧ σ'.backlog = entry :: rest ∧
        σ'.pc.Fruitless ∧
        (σ'.pc = .cleanSync → ∀ label σ'', Step s σ' label σ'' →
          label.event = .dropped entry ∨ σ''.pc = .cleanSync) := by
  suffices hall : .dropped entry ∈ eventsOf labels' ∨
      Overrun (withheld σ.queue σ.sq) (entry :: rest) σ' by
    refine hall.imp_right fun h => ⟨h.kept_eq, h.backlog_eq, h.pc, ?_⟩
    intro hpc' label σ'' hstep
    exact h.drops (agrees hqueue hring (run.trans run')).1 hpc' hstep
  induction run' with
  | start => exact .inr ⟨rfl, hfull, hbacklog, by rw [hpc]; trivial⟩
  | @next labels' σ' label σ'' run' hstep ih =>
      have hsound := (agrees hqueue hring (run.trans run')).1
      have hlabel (left : Nat) : label ≠ .busy left := by
        rintro rfl
        exact hbusy left (by simp)
      rw [eventsOf, List.map_append, List.mem_append]
      obtain hdropped | hoverrun := ih fun left hleft => hbusy left (List.mem_append_left _ hleft)
      · exact .inl (.inl hdropped)
      · obtain hnow | hnext := hoverrun.step hsound hlabel hstep
        · exact .inl (.inr (by simp [hnow]))
        · exact .inr hnext

/-- With the request of the third connection in the backlog, the server comes to publish its
queue without having submitted anything, and then drops the request. -/
theorem overrun_drops_crowded :
    ∃ labels', Run (Step plainSubmitter) .crowded labels' .overrun ∧
      .dropped (pollEntry 7 3) ∉ eventsOf labels' ∧
      withheld State.overrun.queue State.overrun.sq =
        withheld State.crowded.queue State.crowded.sq ∧
      (∀ label σ'', Step plainSubmitter .overrun label σ'' →
        label.event = .dropped (pollEntry 7 3) ∨ σ''.pc = .cleanSync) ∧
      Step plainSubmitter .overrun (.seen (.dropped (pollEntry 7 3))) .dropped := by
  obtain ⟨labels, run⟩ := crowded_reached
  obtain ⟨labels', overrun, hbusy, hkept⟩ := overrun_reached
  obtain hdropped | ⟨hwithheld, -, -, hdrops⟩ :=
    overrun_drops rfl rfl run rfl (by decide +kernel) rfl overrun hbusy
  · exact absurd hdropped (hkept _)
  · exact ⟨labels', overrun, hkept _, hwithheld, hdrops rfl, overrun_step⟩

end Loss

end IoUring.TcpEcho
