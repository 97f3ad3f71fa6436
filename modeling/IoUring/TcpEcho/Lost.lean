import IoUring.TcpEcho.Connections

/-!
# What is lost and what is not

A token has its one job at all times until a completion with an error or a full
queue takes it away. Then the token is left alone for good: its connection stays
open and silent, and its buffer never comes back. Accept requests are counted
instead, and a failed one is not made again.
-/

namespace IoUring.TcpEcho

open Foundation Opcode Submit

namespace Event

/-- The token whose job is gone. -/
def lost : Event → Option UInt64
  | .failed token _ => some token
  | .dropped entry => some entry.getUserData
  | _ => none

/-- The connection on which something happens. -/
def socket : Event → Option Int32
  | .accepted fd | .received fd _ | .sent fd _ | .closed fd => some fd
  | _ => none

end Event

/-- The tokens whose jobs are gone, as often as that happened. -/
def lostOf (events : List Event) : List UInt64 := events.filterMap Event.lost

namespace Tables.Served

variable {t t' : Tables} {k k' : UInt64} {res : Int32} {fresh : Fresh} {reply : Reply}

/-- An arm changes no token but its own and a new one. -/
theorem tokens (h : t.Served k res fresh t' reply) (hk : k' ≠ k) (hfresh : k' ≠ fresh.token) :
    t'.tokenAlloc k' = t.tokenAlloc k' := by
  cases h with
  | failed => rfl
  | accepted => exact Function.update_of_ne hfresh ..
  | _ => exact Function.update_of_ne hk ..

/-- The request of an arm is for its own token, or for the new one of a new connection. -/
theorem push_key (h : t.Served k res fresh t' reply) {entry : Squeue.Entry}
    (hpush : reply.push = some entry) :
    entry.getUserData = k ∧ t.tokenAlloc k ≠ some .accept ∨
      entry.getUserData = fresh.token ∧ t.tokenAlloc k = some .accept := by
  cases h with
  | failed | ended => cases hpush
  | accepted hres ht =>
      cases hpush
      exact .inr ⟨rfl, ht⟩
  | pooled hres ht | allocated hres ht | received hres ht | answered hres ht | continued hres ht =>
      cases hpush
      exact .inl ⟨rfl, by rw [ht]; simp⟩

/-- An arm closes no connection but that of its token. -/
theorem socket_eq (h : t.Served k res fresh t' reply) {cqe : Cqueue.Entry} {fd : Int32}
    (hfd : (reply.event cqe).socket = some fd) : t.ofTokens Token.fd k = some fd := by
  unfold Reply.event at hfd
  split at hfd
  · cases hfd
  · cases h with
    | ended hres ht =>
        cases hfd
        exact Tables.ofTokens_eq ht
    | _ => cases hfd

end Tables.Served

section Asking

variable {listener : Int32} {v : View} {token : Token} {entry : Squeue.Entry} {op : Op}
  {net net' : Net} {res : Int32} {event : Event} {fd : Int32}

/-- The request of a token as the kernel reads it. -/
theorem Fits.asks (h : Fits listener v token (.request entry))
    (hop : decode (.entry entry) = some op) :
    (token = .accept ∧ ∃ o, op = .accept o) ∨ ∃ fd, token.fd = some fd ∧
      ((∃ o, op = .pollAdd o) ∨ (∃ o, op = .recv o ∧ o.fd = .fd fd) ∨
        (∃ o, op = .send o ∧ o.fd = .fd fd) ∨ ∃ o, op = .write o ∧ o.fd = .fd fd) := by
  cases token with
  | accept =>
      have hentry : entry = acceptEntry listener entry.getUserData := h
      rw [hentry, decode_acceptEntry] at hop
      cases hop
      exact .inl ⟨rfl, _, rfl⟩
  | poll fd =>
      rw [h.2, decode_pollEntry] at hop
      cases hop
      exact .inr ⟨fd, rfl, .inl ⟨_, rfl⟩⟩
  | read fd =>
      obtain ⟨-, a, -, hentry⟩ := h
      rw [hentry, decode_readEntry] at hop
      cases hop
      exact .inr ⟨fd, rfl, .inr (.inl ⟨_, rfl, rfl⟩)⟩
  | write fd =>
      obtain ⟨a, message, writes, -, -, ⟨-, hentry⟩ | hentry⟩ := h
      · rw [hentry, decode_sendEntry] at hop
        cases hop
        exact .inr ⟨fd, rfl, .inr (.inr (.inl ⟨_, rfl, rfl⟩))⟩
      · rw [hentry, decode_writeEntry] at hop
        cases hop
        exact .inr ⟨fd, rfl, .inr (.inr (.inr ⟨_, rfl, rfl⟩))⟩

/-- What is seen of an answer happens on the connection of the token, or a new one arrives. -/
theorem Fits.socket (h : Fits listener v token (.request entry))
    (hop : decode (.entry entry) = some op) (hanswer : Answer net op res event net')
    (hfd : event.socket = some fd) :
    token.fd = some fd ∨
      (token = .accept ∧ fd ∉ net.opened) := by
  obtain ⟨haccept, o, rfl⟩ | ⟨fd', htoken, hasked⟩ := h.asks hop
  · cases hanswer with
    | error => cases hfd
    | accept _ _ hnew =>
        cases hfd
        exact .inr ⟨haccept, hnew⟩
  · refine .inl (htoken.trans ?_)
    obtain ⟨o, rfl⟩ | ⟨o, rfl, ho⟩ | ⟨o, rfl, ho⟩ | ⟨o, rfl, ho⟩ := hasked
    · cases hanswer <;> cases hfd
    · cases hanswer with
      | error => cases hfd
      | recv _ hsocket =>
          rw [ho] at hsocket
          cases hsocket
          exact hfd
    · cases hanswer with
      | error => cases hfd
      | send _ hsocket =>
          rw [ho] at hsocket
          cases hsocket
          exact hfd
    · cases hanswer with
      | error => cases hfd
      | write _ hsocket =>
          rw [ho] at hsocket
          cases hsocket
          exact hfd

/-- A connection arrives only through an accept request. -/
theorem Fits.accepts (h : Fits listener v token (.request entry))
    (hop : decode (.entry entry) = some op) (hanswer : Answer net op res (.accepted fd) net') :
    token = .accept := by
  obtain ⟨haccept, -⟩ | ⟨fd', -, hasked⟩ := h.asks hop
  · exact haccept
  · obtain ⟨o, rfl⟩ | ⟨o, rfl, -⟩ | ⟨o, rfl, -⟩ | ⟨o, rfl, -⟩ := hasked <;> cases hanswer

end Asking

/-- The kernel answers or leaves a job as it is. -/
theorem Answer.keeps {net net' : Net} {op : Op} {res : Int32} {event : Event}
    (h : Answer net op res event net') : event.lost = none := by
  cases h <;> rfl

theorem Answer.ne_dropped {net net' : Net} {op : Op} {res : Int32} {event : Event}
    (h : Answer net op res event net') {entry : Squeue.Entry} : event ≠ .dropped entry := by
  rintro rfl
  cases h.keeps

theorem Reply.event_ne_dropped {reply : Reply} {cqe : Cqueue.Entry} {entry : Squeue.Entry} :
    reply.event cqe ≠ .dropped entry := by
  unfold Reply.event
  split
  · nofun
  · split <;> nofun

theorem mem_keysOf_reply {reply : Reply} {jobs : Multiset Job} {k : UInt64} :
    k ∈ keysOf Job.key (reply.jobs + jobs) ↔
      (∃ entry, reply.push = some entry ∧ entry.getUserData = k) ∨ k ∈ keysOf Job.key jobs := by
  rw [keysOf_add, Multiset.mem_add, Reply.jobs]
  cases reply.push with
  | none => simp [keysOf]
  | some entry => simp [Job.key, keysOf, eq_comm]

/-- A fresh key is not that of the accept requests. -/
theorem Inv.vacant_ne {listener : Int32} {k₀ : UInt64} {d : Desk} {s : Sessions} {fresh : Fresh}
    (h : Inv listener k₀ d s) (hfresh : fresh.Vacant d.tables) : fresh.token ≠ k₀ := by
  intro heq
  have hfree := hfresh.token
  rw [(h.accept _).mpr heq] at hfree
  cases hfree

/-! ## A token without a job -/

section Abandoned

variable {listener : Int32} {k₀ k : UInt64} {d d' : Desk} {s : Sessions} {event : Event}
  {token : Token}

/-- Nothing happens to a token without a job, nor on its connection. -/
theorem Inv.leaves_alone (h : Inv listener k₀ d s) (hstep : Desk.Step d event d') (hk : k ≠ k₀)
    (ht : d.tables.tokenAlloc k = some token) (hnone : k ∉ keysOf Job.key d.jobs) :
    d'.tables.tokenAlloc k = some token ∧ k ∉ keysOf Job.key d'.jobs ∧
      ∀ fd, token.fd = some fd → event.socket ≠ some fd := by
  have hfd {fd : Int32} (hfd : token.fd = some fd) : d.tables.ofTokens Token.fd k = some fd :=
    (Tables.ofTokens_eq ht).trans hfd
  cases hstep with
  | @answer tables jobs net entry cqe op event net' hop hkey hanswer =>
      rw [keysOf_cons, Multiset.mem_cons, not_or] at hnone
      refine ⟨ht, ?_, ?_⟩
      · rw [keysOf_cons, Multiset.mem_cons, not_or]
        exact ⟨fun heq => hnone.1 (heq.trans hkey), hnone.2⟩
      · intro fd hsome hsocket
        obtain ⟨token', ht', hfits⟩ := h.work.live _ (Multiset.mem_cons_self _ jobs)
        obtain hown | ⟨-, hnew⟩ := hfits.socket hop hanswer hsocket
        · exact h.fds.once.ne (hfd hsome) (Ne.symm hnone.1)
            ((Tables.ofTokens_eq ht').trans hown)
        · exact hnew (h.fds.isOpen k fd (hfd hsome))
  | drop =>
      rw [keysOf_cons, Multiset.mem_cons, not_or] at hnone
      exact ⟨ht, hnone.2, by simp [Event.socket]⟩
  | @accepts tables jobs net n =>
      refine ⟨ht, ?_, by simp [Event.socket]⟩
      rw [keysOf_add, Multiset.mem_add, keysOf, Multiset.map_replicate, not_or]
      refine ⟨fun hmem => hk ?_, hnone⟩
      have hentry : tables.accept.entry = acceptEntry listener k₀ := h.entry
      rw [Multiset.eq_of_mem_replicate hmem, hentry]
      rfl
  | @serve tables jobs net cqe fresh tables' reply hfresh hserve =>
      have hserved := Tables.served_of_serve hserve
      rw [keysOf_cons, Multiset.mem_cons, not_or] at hnone
      have hvacant : k ≠ fresh.token := by
        rintro rfl
        have hfree := hfresh.token
        rw [show tables.tokenAlloc fresh.token = some token from ht] at hfree
        cases hfree
      refine ⟨(hserved.tokens hnone.1 hvacant).trans ht, ?_, ?_⟩
      · rw [mem_keysOf_reply, not_or]
        refine ⟨?_, hnone.2⟩
        rintro ⟨entry, hpush, rfl⟩
        obtain ⟨heq, -⟩ | ⟨heq, -⟩ := hserved.push_key hpush
        · exact hnone.1 heq
        · exact hvacant heq
      · intro fd hsome hsocket
        exact h.fds.once.ne (hfd hsome) (Ne.symm hnone.1) (hserved.socket_eq hsocket)

theorem Inv.leaves_alone_for_good (h : Inv listener k₀ d s) {events : List Event}
    (run : Run Desk.Step d events d') (hk : k ≠ k₀) (ht : d.tables.tokenAlloc k = some token)
    (hnone : k ∉ keysOf Job.key d.jobs) :
    ∃ s', Inv listener k₀ d' s' ∧ d'.tables.tokenAlloc k = some token ∧
      k ∉ keysOf Job.key d'.jobs ∧
      ∀ fd, token.fd = some fd → ∀ event ∈ events, event.socket ≠ some fd := by
  induction run with
  | start => exact ⟨s, h, ht, hnone, by simp⟩
  | next _ hstep ih =>
      obtain ⟨s', h', ht', hnone', hquiet⟩ := ih
      obtain ⟨s'', -, h''⟩ := h'.step hstep
      obtain ⟨ht'', hnone'', hnow⟩ := h'.leaves_alone hstep hk ht' hnone'
      refine ⟨s'', h'', ht'', hnone'', ?_⟩
      intro fd hfd event hevent
      obtain hevent | hevent := List.mem_append.mp hevent
      · exact hquiet fd hfd event hevent
      · obtain rfl := List.mem_singleton.mp hevent
        exact hnow fd hfd

/-- The step at which a token's job is lost leaves the token without a job. -/
theorem Inv.loses (h : Inv listener k₀ d s) (hstep : Desk.Step d event d') (hk : k ≠ k₀)
    (hlost : event.lost = some k) :
    ∃ token, d.tables.tokenAlloc k = some token ∧ d'.tables.tokenAlloc k = some token ∧
      k ∉ keysOf Job.key d'.jobs := by
  cases hstep with
  | answer _ _ hanswer =>
      rw [hanswer.keeps] at hlost
      cases hlost
  | @drop tables jobs net entry =>
      cases hlost
      obtain ⟨token, ht, -⟩ := h.work.live _ (Multiset.mem_cons_self _ jobs)
      exact ⟨token, ht, ht, h.work.others hk⟩
  | accepts => cases hlost
  | @serve tables jobs net cqe fresh tables' reply hfresh hserve =>
      unfold Reply.event at hlost
      split at hlost
      · rename_i hres
        cases hlost
        obtain ⟨token, ht, -⟩ := h.work.live _ (Multiset.mem_cons_self _ jobs)
        rw [Tables.serve, if_pos hres] at hserve
        cases hserve
        refine ⟨token, ht, ht, ?_⟩
        rw [Reply.jobs, Multiset.zero_add]
        exact h.work.others (w := Job.result cqe) hk
      · split at hlost <;> cases hlost

end Abandoned

/-! ## Every token has its job -/

/-- The number of tokens that a key stands for. -/
def Tables.uses (t : Tables) (k : UInt64) : Nat := (t.tokenAlloc k).elim 0 fun _ => 1

theorem Tables.uses_of_some {t : Tables} {k : UInt64} {token : Token}
    (h : t.tokenAlloc k = some token) : t.uses k = 1 := by
  rw [uses, h, Option.elim_some]

theorem Tables.uses_of_none {t : Tables} {k : UInt64} (h : t.tokenAlloc k = none) :
    t.uses k = 0 := by
  rw [uses, h, Option.elim_none]

theorem Tables.uses_setToken_self (t : Tables) (k : UInt64) (token : Option Token) :
    (t.setToken k token).uses k = token.elim 0 fun _ => 1 := by
  rw [uses, tokenAlloc_setToken, Function.update_self]

theorem Tables.uses_setToken_of_ne {k k' : UInt64} (h : k' ≠ k) (t : Tables)
    (token : Option Token) : (t.setToken k token).uses k' = t.uses k' := by
  rw [uses, tokenAlloc_setToken, Function.update_of_ne h, uses]

/-- A token in use has one job, or has lost it; three accept requests are counted, in hand or
gone. -/
structure Tended (k₀ : UInt64) (d : Desk) (lost : List UInt64) : Prop where
  token : ∀ k ≠ k₀, (keysOf Job.key d.jobs).count k + lost.count k = d.tables.uses k
  accept : d.tables.accept.count + (keysOf Job.key d.jobs).count k₀ + lost.count k₀ = 3

theorem count_keysOf_cons (k : UInt64) (job : Job) (jobs : Multiset Job) :
    (keysOf Job.key (job ::ₘ jobs)).count k =
      (keysOf Job.key jobs).count k + [job.key].count k := by
  rw [keysOf_cons, ← Multiset.singleton_add, Multiset.count_add, Nat.add_comm,
    ← Multiset.coe_singleton, Multiset.coe_count]

theorem count_keysOf_reply (k : UInt64) (reply : Reply) (jobs : Multiset Job) :
    (keysOf Job.key (reply.jobs + jobs)).count k =
      (keysOf Job.key jobs).count k + (reply.push.toList.map Squeue.Entry.getUserData).count k := by
  rw [keysOf_add, Multiset.count_add, Nat.add_comm, Reply.jobs]
  cases reply.push with
  | none => rfl
  | some entry =>
      change _ + Multiset.count k (Multiset.map Job.key {Job.request entry}) = _
      rw [Multiset.map_singleton, ← Multiset.coe_singleton, Multiset.coe_count]
      rfl

theorem count_other {k k' : UInt64} (h : k ≠ k') : [k'].count k = 0 :=
  List.count_eq_zero.mpr (by simpa using h)

namespace Tended

variable {listener : Int32} {k₀ : UInt64} {t t' : Tables} {jobs : Multiset Job} {net : Net}
  {s : Sessions} {lost : List UInt64} {job : Job} {cqe : Cqueue.Entry} {fresh : Fresh}
  {reply : Reply}

theorem start (listener : Int32) (k₀ : UInt64) (net : Net) :
    Tended k₀ (Desk.start listener k₀ net) [] where
  token := by
    intro k hk
    simp [Desk.start, Tables.start, Tables.uses, keysOf, hk]
  accept := rfl

/-- A job is lost. -/
theorem loses (h : Tended k₀ ⟨t, job ::ₘ jobs, net⟩ lost) :
    Tended k₀ ⟨t, jobs, net⟩ (lost ++ [job.key]) where
  token := by
    intro k hk
    have hbefore := h.token k hk
    simp only [count_keysOf_cons] at hbefore
    simp only [List.count_append]
    omega
  accept := by
    have hbefore := h.accept
    simp only [count_keysOf_cons] at hbefore
    simp only [List.count_append]
    omega

/-- A token goes on with a new request. -/
theorem goesOn (h : Tended k₀ ⟨t, .result cqe ::ₘ jobs, net⟩ lost) {entry : Squeue.Entry}
    {token token' : Token} {net' : Net} (ht : t.tokenAlloc cqe.userData = some token)
    (hpush : reply.push = some entry) (hkey : entry.getUserData = cqe.userData)
    (hsame : ∀ k, t'.uses k = t.uses k) (haccept : t'.accept = t.accept) :
    Tended k₀ ⟨t'.setToken cqe.userData (some token'), reply.jobs + jobs, net'⟩ lost where
  token := by
    intro k hk
    have hbefore := h.token k hk
    simp only [count_keysOf_cons, Job.key] at hbefore
    simp only [count_keysOf_reply, hpush, Option.toList_some, List.map_singleton, hkey]
    rw [hbefore]
    by_cases heq : k = cqe.userData
    · subst heq
      rw [Tables.uses_setToken_self, Tables.uses_of_some ht, Option.elim_some]
    · rw [Tables.uses_setToken_of_ne heq, hsame]
  accept := by
    have hbefore := h.accept
    simp only [count_keysOf_cons, Job.key] at hbefore
    simp only [count_keysOf_reply, hpush, Option.toList_some, List.map_singleton, hkey,
      Tables.setToken, haccept]
    exact hbefore

/-- A new connection brings a new token, and its accept request is counted again. -/
theorem accepts (h : Tended k₀ ⟨t, .result cqe ::ₘ jobs, net⟩ lost) {entry : Squeue.Entry}
    {token : Token} {net' : Net} (hk : cqe.userData = k₀) (hfree : t.tokenAlloc fresh.token = none)
    (hne : fresh.token ≠ k₀) (hpush : reply.push = some entry)
    (hkey : entry.getUserData = fresh.token) :
    Tended k₀ ⟨{ t with accept.count := t.accept.count + 1 }.setToken fresh.token (some token),
      reply.jobs + jobs, net'⟩ lost where
  token := by
    intro k hother
    have hbefore := h.token k hother
    simp only [count_keysOf_cons, Job.key, hk, count_other hother] at hbefore
    simp only [count_keysOf_reply, hpush, Option.toList_some, List.map_singleton, hkey]
    by_cases heq : k = fresh.token
    · subst heq
      rw [Tables.uses_of_none hfree] at hbefore
      rw [Tables.uses_setToken_self, Option.elim_some, List.count_singleton_self]
      omega
    · rw [Tables.uses_setToken_of_ne heq, count_other heq]
      exact hbefore
  accept := by
    have hbefore := h.accept
    simp only [count_keysOf_cons, Job.key, hk, List.count_singleton_self] at hbefore
    simp only [count_keysOf_reply, hpush, Option.toList_some, List.map_singleton, hkey,
      count_other (Ne.symm hne), Tables.setToken]
    omega

/-- The token of a closed connection is gone with its job. -/
theorem ends (h : Tended k₀ ⟨t, .result cqe ::ₘ jobs, net⟩ lost) {token : Token} {net' : Net}
    (hk : cqe.userData ≠ k₀) (ht : t.tokenAlloc cqe.userData = some token)
    (hpush : reply.push = none) (hsame : ∀ k, t'.uses k = t.uses k)
    (haccept : t'.accept = t.accept) :
    Tended k₀ ⟨t'.setToken cqe.userData none, reply.jobs + jobs, net'⟩ lost where
  token := by
    intro k hother
    have hbefore := h.token k hother
    simp only [count_keysOf_cons, Job.key] at hbefore
    simp only [count_keysOf_reply, hpush, Option.toList_none, List.map_nil, List.count_nil]
    by_cases heq : k = cqe.userData
    · subst heq
      rw [Tables.uses_of_some ht, List.count_singleton_self] at hbefore
      rw [Tables.uses_setToken_self, Option.elim_none]
      omega
    · rw [count_other heq] at hbefore
      rw [Tables.uses_setToken_of_ne heq, hsame]
      exact hbefore
  accept := by
    have hbefore := h.accept
    simp only [count_keysOf_cons, Job.key, count_other (Ne.symm hk)] at hbefore
    simp only [count_keysOf_reply, hpush, Option.toList_none, List.map_nil, List.count_nil,
      Tables.setToken, haccept]
    exact hbefore

/-- Whatever an arm does, every token stays tended. -/
theorem serve (h : Tended k₀ ⟨t, .result cqe ::ₘ jobs, net⟩ lost)
    (hinv : Inv listener k₀ ⟨t, .result cqe ::ₘ jobs, net⟩ s) (hfresh : fresh.Vacant t)
    (hserved : t.Served cqe.userData cqe.res fresh t' reply) :
    Tended k₀ ⟨t', reply.jobs + jobs, reply.apply net⟩
      (lost ++ (reply.event cqe).lost.toList) := by
  have hquiet (hres : 0 ≤ cqe.res) : lost ++ (reply.event cqe).lost.toList = lost := by
    rw [Reply.event, if_neg (Int32.not_lt.mpr hres)]
    split <;> exact List.append_nil lost
  have hne {token : Token} (ht : t.tokenAlloc cqe.userData = some token)
      (htoken : token ≠ .accept) : cqe.userData ≠ k₀ := hinv.key_ne ht htoken
  cases hserved with
  | failed hres =>
      rw [Reply.event, if_pos hres, Reply.jobs, Multiset.zero_add]
      exact h.loses
  | accepted hres ht =>
      rw [hquiet hres]
      exact h.accepts ((hinv.accept _).mp ht) hfresh.token (hinv.vacant_ne hfresh) rfl rfl
  | ended hres ht =>
      rw [hquiet (Int32.le_of_eq hres.symm)]
      exact h.ends (hne ht (by simp)) ht rfl (fun _ => rfl) rfl
  | received hres ht =>
      rw [hquiet (Int32.le_of_lt hres)]
      exact h.goesOn ht rfl rfl (fun _ => rfl) rfl
  | pooled hres ht | allocated hres ht | answered hres ht | continued hres ht =>
      rw [hquiet hres]
      exact h.goesOn ht rfl rfl (fun _ => rfl) rfl

/-- The step lemma. -/
theorem step {d d' : Desk} {event : Event} (h : Tended k₀ d lost) (hinv : Inv listener k₀ d s)
    (hstep : Desk.Step d event d') : Tended k₀ d' (lost ++ event.lost.toList) := by
  cases hstep with
  | answer hop hkey hanswer =>
      rw [hanswer.keeps, Option.toList_none, List.append_nil]
      constructor
      · intro k hk
        have hbefore := h.token k hk
        simp only [count_keysOf_cons, Job.key] at hbefore ⊢
        rw [hkey]
        exact hbefore
      · have hbefore := h.accept
        simp only [count_keysOf_cons, Job.key] at hbefore ⊢
        rw [hkey]
        exact hbefore
  | drop => exact h.loses
  | @accepts tables jobs net n hn =>
      have hkey : tables.accept.entry.getUserData = k₀ := by
        rw [show tables.accept.entry = acceptEntry listener k₀ from hinv.entry]
        rfl
      have hcount (k : UInt64) : (keysOf Job.key (Multiset.replicate n
          (.request tables.accept.entry) + jobs)).count k =
            (if k₀ = k then n else 0) + (keysOf Job.key jobs).count k := by
        rw [keysOf_add, Multiset.count_add, keysOf, Multiset.map_replicate, Job.key, hkey,
          Multiset.count_replicate]
      rw [show lost ++ Event.quiet.lost.toList = lost from List.append_nil lost]
      constructor
      · intro k hk
        have hbefore := h.token k hk
        rw [hcount, if_neg (Ne.symm hk), Nat.zero_add]
        exact hbefore
      · have hbefore := h.accept
        rw [hcount, if_pos rfl]
        simp only at hbefore ⊢
        omega
  | serve hfresh hserve => exact h.serve hinv hfresh (Tables.served_of_serve hserve)

end Tended

/-! ## What becomes of the connections -/

section Runs

variable {s : Submitter} {queue : Squeue.Inner Squeue.Entry} {ring : Cqueue.Inner Cqueue.Entry}
  {listener : Int32} {k₀ k : UInt64} {net : Net} {labels labels' : List Label} {σ σ₁ σ' : State}

theorem lostOf_snoc (events : List Event) (event : Event) :
    lostOf (events ++ [event]) = lostOf events ++ event.lost.toList := by
  rw [lostOf, List.filterMap_append, lostOf]
  cases hlost : event.lost <;> simp [hlost]

/-- The run lemma: on the desk every token is tended. -/
theorem Tended.run {events : List Event} {d : Desk}
    (run : Run Desk.Step (Desk.start listener k₀ net) events d) : Tended k₀ d (lostOf events) := by
  induction run with
  | start => exact .start listener k₀ net
  | next run hstep ih =>
      obtain ⟨sessions, -, hinv⟩ := Desk.run run
      rw [lostOf_snoc]
      exact ih.step hinv hstep

theorem mem_backlog {sq sq' : Squeue.SubmissionQueue} {q q' : Squeue.Inner Squeue.Entry}
    {backlog backlog' : List Squeue.Entry} {push : Option Squeue.Entry} {e : Squeue.Entry}
    (h : pushOrQueue sq q backlog push = (sq', q', backlog')) (he : e ∈ backlog') :
    e ∈ backlog ∨ push = some e := by
  unfold pushOrQueue at h
  split at h
  · cases h
    exact .inl he
  · split at h
    · cases h
      exact .inl he
    · cases h
      obtain he | he := List.mem_append.mp he
      · exact .inl he
      · exact .inr (congrArg some (List.mem_singleton.mp he).symm)

/-- Only an arm adds to the backlog, and never an accept request. -/
theorem backlog_step {sessions : Sessions} (h : Inv listener k₀ σ.desk sessions)
    {label : Label} (hstep : Step s σ label σ') (hbacklog : ∀ e ∈ σ.backlog, e.getUserData ≠ k₀) :
    (∀ e ∈ σ'.backlog, e.getUserData ≠ k₀) ∧
      ∀ e, label.event = .dropped e → e.getUserData ≠ k₀ := by
  cases hstep with
  | cleanPush hpc heq hsync hpush =>
      rw [heq] at hbacklog
      exact ⟨fun e he => hbacklog e (List.mem_cons_of_mem _ he), nofun⟩
  | cleanDrop hpc heq hsync herr =>
      rw [heq] at hbacklog
      refine ⟨fun e he => hbacklog e (List.mem_cons_of_mem _ he), ?_⟩
      rintro e ⟨⟩
      exact hbacklog _ List.mem_cons_self
  | @serve cqe cq fresh tables reply sq queue backlog hpc hnext hfresh hserve hpush =>
      refine ⟨?_, ?_⟩
      · intro e he
        obtain he | hnew := mem_backlog hpush he
        · exact hbacklog e he
        · obtain ⟨hkey, hne⟩ | ⟨hkey, -⟩ := (Tables.served_of_serve hserve).push_key hnew
          · rw [hkey]
            exact fun heq => hne ((h.accept _).mpr heq)
          · rw [hkey]
            exact h.vacant_ne hfresh
      · exact fun e hevent => absurd hevent Reply.event_ne_dropped
  | answer before hworking hop hkey hanswer =>
      exact ⟨hbacklog, fun e hevent => absurd hevent hanswer.ne_dropped⟩
  | answerOverflow before hworking hop hkey hanswer =>
      exact ⟨hbacklog, fun e hevent => absurd hevent hanswer.ne_dropped⟩
  | _ => exact ⟨hbacklog, nofun⟩

theorem backlog_run (hqueue : queue.tail = queue.head) (hring : ring.tail = ring.head)
    (run : Run (Step s) (State.start queue ring listener k₀ net) labels σ) :
    (∀ e ∈ σ.backlog, e.getUserData ≠ k₀) ∧
      ∀ e, .dropped e ∈ eventsOf labels → e.getUserData ≠ k₀ := by
  induction run with
  | start => exact ⟨nofun, nofun⟩
  | @next labels σ label σ' run hstep ih =>
      obtain ⟨hsound, sessions, -, h⟩ := agrees hqueue hring run
      obtain ⟨hbacklog, hnow⟩ := backlog_step h hstep ih.1
      refine ⟨hbacklog, ?_⟩
      intro e he
      rw [eventsOf, List.map_append, List.mem_append] at he
      obtain he | he := he
      · exact ih.2 e he
      · exact hnow e (List.mem_singleton.mp he).symm

/-- Every token in use has one job in hand or has lost it once, and of the three accept requests
none gets lost unless it fails. -/
theorem jobs_conserved (hqueue : queue.tail = queue.head) (hring : ring.tail = ring.head)
    (run : Run (Step s) (State.start queue ring listener k₀ net) labels σ) :
    (∀ k token, σ.tables.tokenAlloc k = some token → k ≠ k₀ →
      (keysOf Job.key σ.jobs).count k + (lostOf (eventsOf labels)).count k = 1) ∧
    σ.tables.accept.count + (keysOf Job.key σ.jobs).count k₀ +
      (lostOf (eventsOf labels)).count k₀ = 3 ∧
    ∀ e, .dropped e ∈ eventsOf labels → e.getUserData ≠ k₀ := by
  have htended := Tended.run (Sound.run hqueue hring run).2
  refine ⟨?_, htended.accept, (backlog_run hqueue hring run).2⟩
  intro k token ht hk
  exact (htended.token k hk).trans (Tables.uses_of_some ht)

theorem jobs_conserved_reading :
    ∃ labels, Run (Step plainSubmitter) .small labels .reading ∧
      (keysOf Job.key State.reading.jobs).count 1 + (lostOf (eventsOf labels)).count 1 = 1 := by
  obtain ⟨labels, run⟩ := reading_run
  exact ⟨labels, run, (jobs_conserved rfl rfl run).1 1 (.read 5 0) rfl (by decide)⟩

/-- A connection whose job is lost is never served nor closed again: its token stays as it is, its
descriptor open and its buffer in use, and nothing more is seen of it. -/
theorem abandoned (hqueue : queue.tail = queue.head) (hring : ring.tail = ring.head)
    (run : Run (Step s) (State.start queue ring listener k₀ net) labels σ) {label : Label}
    (hstep : Step s σ label σ₁) (hk : k ≠ k₀) (hlost : label.event.lost = some k)
    (run' : Run (Step s) σ₁ labels' σ') :
    ∃ token fd, token.fd = some fd ∧ σ.tables.tokenAlloc k = some token ∧
      σ'.tables.tokenAlloc k = some token ∧ k ∉ keysOf Job.key σ'.jobs ∧ fd ∈ σ'.net.opened ∧
      (∀ b, token.buf = some b → b ∉ σ'.tables.bufpool) ∧
      ∀ event ∈ eventsOf labels', event.socket ≠ some fd := by
  obtain ⟨hsound, sessions, -, h⟩ := agrees hqueue hring run
  obtain ⟨hsound₁, hdesk⟩ := hsound.step hstep
  obtain ⟨sessions₁, -, h₁⟩ := h.step hdesk
  obtain ⟨token, ht, ht₁, hnone⟩ := h.loses hdesk hk hlost
  obtain ⟨sessions', h', ht', hnone', hquiet⟩ :=
    h₁.leaves_alone_for_good (hsound₁.stretch run').2 hk ht₁ hnone
  have htoken : token ≠ .accept := by
    rintro rfl
    exact hk ((h.accept k).mp ht)
  obtain ⟨fd, hfd⟩ : ∃ fd, token.fd = some fd := by
    cases token with
    | accept => exact absurd rfl htoken
    | _ => exact ⟨_, rfl⟩
  refine ⟨token, fd, hfd, ht, ht', hnone', ?_, ?_, hquiet fd hfd⟩
  · exact h'.fds.isOpen k fd ((Tables.ofTokens_eq ht').trans hfd)
  · intro b hb hpool
    exact h'.bufs.free b hpool k ((Tables.ofTokens_eq ht').trans hb)

/-- The third connection of the small server. -/
theorem abandoned_dropped :
    ∃ token fd labels', Run (Step plainSubmitter) .dropped labels' .reading ∧
      token.fd = some fd ∧ State.reading.tables.tokenAlloc 3 = some token ∧
      3 ∉ keysOf Job.key State.reading.jobs ∧ fd ∈ State.reading.net.opened ∧
      ∀ event ∈ eventsOf labels', event.socket ≠ some fd := by
  obtain ⟨labels, run⟩ := crowded_reached
  obtain ⟨more, overrun, -⟩ := overrun_reached
  obtain ⟨labels', readable⟩ := readable_reached
  obtain ⟨labels'', reading⟩ := reading_reached
  obtain ⟨token, fd, hfd, -, ht, hnone, hopen, -, hquiet⟩ := abandoned rfl rfl
    (run.trans overrun) overrun_step (k := 3) (by decide) rfl (readable.trans reading)
  exact ⟨token, fd, _, readable.trans reading, hfd, ht, hnone, hopen, hquiet⟩

/-- No connection arrives unless an accept request is in hand. -/
theorem Inv.accepts_by {d d' : Desk} {sessions : Sessions} {fd : Int32} {event : Event}
    (h : Inv listener k₀ d sessions) (hstep : Desk.Step d event d')
    (hevent : event = .accepted fd) : k₀ ∈ keysOf Job.key d.jobs := by
  cases hstep with
  | @answer tables jobs net entry cqe op event net' hop hkey hanswer =>
      subst hevent
      obtain ⟨token, ht, hfits⟩ := h.work.live _ (Multiset.mem_cons_self _ jobs)
      obtain rfl := hfits.accepts hop hanswer
      rw [keysOf_cons, (h.accept _).mp ht]
      exact Multiset.mem_cons_self _ _
  | drop => cases hevent
  | accepts => cases hevent
  | @serve tables jobs net cqe fresh tables' reply hfresh hserve =>
      rw [Reply.event] at hevent
      split at hevent
      · cases hevent
      · split at hevent <;> cases hevent

/-- After its three accept requests have failed the server never gets a connection again. -/
theorem deaf (hqueue : queue.tail = queue.head) (hring : ring.tail = ring.head)
    (run : Run (Step s) (State.start queue ring listener k₀ net) labels σ)
    (hlost : 3 ≤ (lostOf (eventsOf labels)).count k₀)
    (run' : Run (Step s) σ labels' σ') (fd : Int32) : .accepted fd ∉ eventsOf labels' := by
  induction run' with
  | start => simp [eventsOf]
  | @next labels' σ label σ' run' hstep ih =>
      have hrun := run.trans run'
      obtain ⟨hsound, sessions, -, h⟩ := agrees hqueue hring hrun
      have htended := (Tended.run (Sound.run hqueue hring hrun).2).accept
      rw [eventsOf, List.map_append, lostOf, List.filterMap_append, List.count_append] at htended
      rw [eventsOf, List.map_append, List.mem_append, not_or]
      refine ⟨ih, ?_⟩
      intro hevent
      have hnow : label.event = .accepted fd := (List.mem_singleton.mp hevent).symm
      have hjob := h.accepts_by (hsound.step hstep).2 hnow
      have hcount := Multiset.count_pos.mpr hjob
      rw [lostOf, eventsOf] at hlost
      omega

/-- All three requests have failed. -/
theorem deaf_small :
    ∃ labels σ, Run (Step plainSubmitter) .small labels σ ∧
      (lostOf (eventsOf labels)).count 0 = 3 ∧
      ∀ labels' σ', Run (Step plainSubmitter) σ labels' σ' → .accepted 5 ∉ eventsOf labels' := by
  have run : Run (Step plainSubmitter) .small [] _ := .start
  have run := (run.next (.setup rfl rfl)).next (.wait rfl rfl)
  have run := (run.next (.consume rfl rfl)).next (.consume rfl rfl)
  have run := run.next (@Step.answer _ _ _ _ _ ⟨0, -24, 0⟩ _ _ _ [] rfl (decode_acceptEntry 4 0)
    rfl (.error (by decide) (by decide)) rfl rfl)
  have run := run.next (@Step.answer _ _ _ _ _ ⟨0, -24, 0⟩ _ _ _ [] rfl (decode_acceptEntry 4 0)
    rfl (.error (by decide) (by decide)) rfl rfl)
  have run := out_of_wait_full run rfl (by decide +kernel) rfl rfl rfl
  have run := run.next (@Step.serve _ _ ⟨0, -24, 0⟩ _ ⟨1, 0, 0⟩ _ _ _ _ _ rfl rfl
    ⟨by decide +kernel, rfl, nofun⟩ rfl rfl)
  have run := run.next (@Step.serve _ _ ⟨0, -24, 0⟩ _ ⟨1, 0, 0⟩ _ _ _ _ _ rfl rfl
    ⟨by decide +kernel, rfl, nofun⟩ rfl rfl)
  have run := into_wait run rfl (if_neg (by decide +kernel)) rfl
  have run := run.next (.consume rfl rfl)
  have run := run.next (@Step.answer _ _ _ _ _ ⟨0, -24, 0⟩ _ _ _ [] rfl (decode_acceptEntry 4 0)
    rfl (.error (by decide) (by decide)) rfl rfl)
  have run := out_of_wait run rfl (by decide +kernel) rfl rfl
  have run := run.next (@Step.serve _ _ ⟨0, -24, 0⟩ _ ⟨1, 0, 0⟩ _ _ _ _ _ rfl rfl
    ⟨by decide +kernel, rfl, nofun⟩ rfl rfl)
  exact ⟨_, _, run, by decide +kernel, fun _ _ run' => deaf rfl rfl run (by decide +kernel) run' 5⟩

end Runs

end IoUring.TcpEcho
