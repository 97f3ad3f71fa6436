import IoUring.TcpEcho.Arms

/-!
# The server refines an echo

Every run of the server without its queues is a run of the sessions, whatever
the kernel answers and in whichever order jobs are answered, lost and taken; and
in every state the arm of any completion runs to its end.
-/

namespace IoUring.TcpEcho

open Foundation Opcode

namespace Inv

variable {listener : Int32} {k₀ : UInt64} {t t' : Tables} {jobs : Multiset Job} {net : Net}
  {s : Sessions} {cqe : Cqueue.Entry} {fresh : Fresh} {reply : Reply} {d d' : Desk}
  {event : Event}

/-- The server's step: whichever arm runs, what it does is a step of the sessions. -/
theorem serve (h : Inv listener k₀ ⟨t, .result cqe ::ₘ jobs, net⟩ s) (hfresh : fresh.Vacant t)
    (hserved : t.Served cqe.userData cqe.res fresh t' reply) :
    ∃ s', Sessions.Step serverAsks s (reply.event cqe) s' ∧
      Inv listener k₀ ⟨t', reply.jobs + jobs, reply.apply net⟩ s' := by
  have hquiet (hres : 0 ≤ cqe.res) (hclosed : reply.closed = none) :
      reply.event cqe = .quiet := by
    rw [Reply.event, if_neg (Int32.not_lt.mpr hres), hclosed]
  cases hserved with
  | failed hres =>
      have hevent : Reply.event {} cqe = .failed cqe.userData cqe.res := if_pos hres
      rw [hevent]
      refine ⟨s, .failed, ?_⟩
      rw [Reply.jobs, Multiset.zero_add]
      exact h.failedArm
  | accepted hres ht =>
      rw [hquiet hres rfl]
      exact ⟨s, .quiet, h.acceptedArm hfresh hres ht⟩
  | pooled hres ht hpool ha =>
      rw [hquiet hres rfl]
      exact ⟨s, .quiet, h.pooledArm ht hpool ha⟩
  | allocated hres ht =>
      rw [hquiet hres rfl]
      exact ⟨s, .quiet, h.allocatedArm hfresh ht⟩
  | @ended fd b hres ht =>
      have hevent : Reply.event { closed := some fd } cqe = .closed fd :=
        if_neg (by rw [hres]; exact Int32.lt_irrefl)
      have hended : s.state fd = some .ended := by
        obtain hneg | ⟨-, hended⟩ | ⟨a, message, hin, hlen, -⟩ :=
          h.work.fits_of (Multiset.mem_cons_self _ jobs) ht
        · rw [hres] at hneg
          exact (Int32.lt_irrefl hneg).elim
        · exact hended
        · -- a message is not empty
          have hpos : 0 < message.length := List.length_pos_of_ne_nil hin.ne
          have hlength := hin.length_le
          have hzero : (Int32.ofNat message.length).toInt = 0 := by
            rw [← hlen, hres]
            rfl
          rw [bufSize] at hlength
          rw [toInt_ofNat (by omega)] at hzero
          omega
      rw [hevent]
      refine ⟨_, .closed hended, ?_⟩
      rw [Reply.jobs, Multiset.zero_add]
      exact h.endedArm ht
  | received hres ht ha =>
      rw [hquiet (Int32.le_of_lt hres) rfl]
      exact ⟨s, .quiet, h.receivedArm ht hres ha⟩
  | answered hres ht hdone =>
      rw [hquiet hres rfl]
      exact ⟨s, .quiet, h.answeredArm ht hres hdone⟩
  | continued hres ht hnext ha =>
      rw [hquiet hres rfl]
      exact ⟨s, .quiet, h.continuedArm ht hres hnext ha⟩

/-- A lost request leaves its token without work for good. -/
theorem drop {entry : Squeue.Entry} (h : Inv listener k₀ ⟨t, .request entry ::ₘ jobs, net⟩ s) :
    Inv listener k₀ ⟨t, jobs, net⟩ s where
  work := h.work.change (Multiset.le_cons_self jobs _) fun _ _ token ht hx => ⟨token, ht, hx⟩
  accept := h.accept
  entry := h.entry
  bufs := h.bufs
  fds := h.fds.ofLe (arrivals_le k₀ _ jobs)
  sessions := h.sessions

theorem arrivals_replicate (k₀ : UInt64) (n : Nat) (entry : Squeue.Entry) :
    arrivals k₀ (Multiset.replicate n (.request entry) + jobs) = arrivals k₀ jobs := by
  induction n with
  | zero => rw [Multiset.replicate_zero, Multiset.zero_add]
  | succ n ih => rw [Multiset.replicate_succ, Multiset.cons_add, arrivals_cons_none rfl, ih]

theorem accepts (h : Inv listener k₀ ⟨t, jobs, net⟩ s) (n : Nat) :
    Inv listener k₀
      ⟨{ t with accept.count := t.accept.count - n },
        Multiset.replicate n (.request t.accept.entry) + jobs, net⟩ s where
  work := by
    refine h.work.takeAll ?_
    intro job hjob
    obtain rfl := Multiset.eq_of_mem_replicate hjob
    have hentry : t.accept.entry = acceptEntry listener k₀ := h.entry
    refine ⟨?_, .accept, ?_, ?_⟩
    · rw [hentry]
      rfl
    · rw [h.accept, hentry]
      rfl
    · rw [hentry]
      rfl
  accept := h.accept
  entry := h.entry
  bufs := { h.bufs with }
  fds := (h.fds.ofLe (arrivals_replicate k₀ n _).le).ofTokens rfl
  sessions := h.sessions

/-- The step lemma: every step on the desk is a step of the sessions. -/
theorem step (h : Inv listener k₀ d s) (hstep : Desk.Step d event d') :
    ∃ s', Sessions.Step serverAsks s event s' ∧ Inv listener k₀ d' s' := by
  cases hstep with
  | answer hop hkey hanswer => exact h.answer hop hkey hanswer
  | drop => exact ⟨s, .dropped, h.drop⟩
  | accepts n => exact ⟨s, .quiet, h.accepts n⟩
  | serve hfresh hserve => exact h.serve hfresh (Tables.served_of_serve hserve)

/-- In every state the arm of any completion runs to its end. -/
theorem runs (h : Inv listener k₀ d s) {cqe : Cqueue.Entry} (hcqe : .result cqe ∈ d.jobs)
    (fresh : Fresh) : ∃ t' reply, d.tables.serve cqe.userData cqe.res fresh = some (t', reply) := by
  unfold Tables.serve
  split
  · exact ⟨_, _, rfl⟩
  · rename_i hres
    obtain ⟨token, ht, hfits⟩ := h.work.live _ hcqe
    change d.tables.tokenAlloc cqe.userData = some token at ht
    simp only [ht, Option.bind_some]
    have hbuf (b : UInt64) (hb : token.buf = some b) : ∃ a, d.tables.bufAlloc b = some a :=
      h.bufs.held cqe.userData b ((Tables.ofTokens_eq ht).trans hb)
    cases token with
    | accept => exact ⟨_, _, rfl⟩
    | poll fd =>
        simp only [Tables.onPoll, Tables.takeBuf]
        split
        · rename_i b rest hpool
          obtain ⟨a, ha⟩ := h.bufs.pooled b (hpool ▸ List.mem_cons_self)
          rw [ha]
          exact ⟨_, _, rfl⟩
        · exact ⟨_, _, rfl⟩
    | read fd b =>
        simp only [Tables.onRead]
        split
        · exact ⟨_, _, rfl⟩
        · obtain ⟨a, ha⟩ := hbuf b rfl
          rw [ha]
          exact ⟨_, _, rfl⟩
    | write fd b offset len =>
        simp only [Tables.onWrite]
        split
        · exact ⟨_, _, rfl⟩
        · rename_i hshort
          obtain ⟨a, ha⟩ := hbuf b rfl
          -- the slice starts within the buffer
          obtain hneg | ⟨a, message, writes, w, hanswers, -⟩ := hfits
          · exact absurd hneg hres
          · have hpos : 0 < message.length := List.length_pos_of_ne_nil hanswers.buffer.ne
            have hbound := (nextWrite_eq_some hanswers.next hpos).2.1
            have hlength := hanswers.buffer.length_le
            rw [ha, Option.bind_some, if_pos (by omega)]
            exact ⟨_, _, rfl⟩

end Inv

/-- What `main` starts with: the token of the accept requests and no buffer. -/
def Tables.start (listener : Int32) (k₀ : UInt64) : Tables where
  tokenAlloc := Function.update (fun _ => none) k₀ (some .accept)
  bufAlloc := fun _ => none
  bufpool := []
  accept := .new listener k₀ 3

def Desk.start (listener : Int32) (k₀ : UInt64) (net : Net) : Desk where
  tables := .start listener k₀
  jobs := 0
  net := net

theorem Tables.ofTokens_start {α : Type} (has : Token → Option α) (h : has .accept = none)
    (listener : Int32) (k₀ k : UInt64) : (Tables.start listener k₀).ofTokens has k = none := by
  by_cases hk : k = k₀ <;> simp [ofTokens, start, hk, h]

theorem Inv.start (listener : Int32) (k₀ : UInt64) (net : Net) :
    Inv listener k₀ (Desk.start listener k₀ net) Sessions.start where
  work := ⟨by simp [keysOf, Desk.start], by simp [Desk.start]⟩
  accept := by
    intro k
    by_cases hk : k = k₀ <;> simp [Desk.start, Tables.start, hk]
  entry := rfl
  bufs :=
    { held := by simp [Desk.start, Tables.ofTokens_start Token.buf rfl]
      once := by simp [Exclusive, Desk.start, Tables.ofTokens_start Token.buf rfl]
      pooled := by simp [Desk.start, Tables.start]
      free := by simp [Desk.start, Tables.start]
      nodup := List.nodup_nil
      apart := by simp [Desk.start, Tables.start]
      owned := by simp [Desk.start, Tables.start] }
  fds :=
    { isOpen := by simp [Desk.start, Tables.ofTokens_start Token.fd rfl]
      once := by simp [Exclusive, Desk.start, Tables.ofTokens_start Token.fd rfl]
      arrived := by simp [arrivals, Desk.start]
      nodup := Multiset.nodup_zero }
  sessions := by simp [Sessions.start]

/-- The run lemma: every run on the desk is a run of the sessions that agrees with it. -/
theorem Desk.run {listener : Int32} {k₀ : UInt64} {net : Net} {events : List Event} {d : Desk}
    (run : Run Desk.Step (Desk.start listener k₀ net) events d) :
    ∃ s, Run (Sessions.Step serverAsks) .start events s ∧ Inv listener k₀ d s :=
  run.simulate (R := fun d s => Inv listener k₀ d s) (Inv.start listener k₀ net)
    fun _ _ _ _ h hstep => h.step hstep

end IoUring.TcpEcho
