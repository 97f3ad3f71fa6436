import IoUring.TcpEcho.Answers

/-!
# The arms of the server's loop

Whichever completion the server takes, its arm runs to the end, and desk and
sessions agree again. An arm changes the token of the completion, or makes a
new one for a new connection, and pushes at most one request for it.
-/

namespace IoUring.TcpEcho

open Foundation Opcode

namespace Inv

variable {listener : Int32} {k₀ : UInt64} {t : Tables} {jobs : Multiset Job} {net : Net}
  {s : Sessions} {cqe : Cqueue.Entry} {fresh : Fresh} {token : Token} {fd : Int32} {b a : UInt64}

/-- The token of the completion changes, and a request for it is made. -/
theorem renew (h : Inv listener k₀ ⟨t, .result cqe ::ₘ jobs, net⟩ s) (hne : cqe.userData ≠ k₀)
    {v : View} {entry : Squeue.Entry} (hentry : entry.getUserData = cqe.userData)
    (hfits : Fits listener v token (.request entry))
    (hrest : ∀ x ∈ jobs, x.key ≠ cqe.userData → ∀ token, t.tokenAlloc x.key = some token →
      Fits listener (Desk.view ⟨t, .result cqe ::ₘ jobs, net⟩ s) token x →
        Fits listener v token x) :
    Ticketed Job.key (· = k₀) (Fits listener v)
      (Function.update t.tokenAlloc cqe.userData (some token)) (.request entry ::ₘ jobs) := by
  have hothers := h.work.others (w := Job.result cqe) hne
  have hsettled : Ticketed Job.key (· = k₀) (Fits listener v)
      (Function.update t.tokenAlloc cqe.userData (some token)) jobs :=
    h.work.settle (w := Job.result cqe) hne hrest
  refine hsettled.take (t := token) (.inr ?_) ?_ hfits
  · change entry.getUserData ∉ _
    rw [hentry]
    exact hothers
  · change Function.update t.tokenAlloc _ _ entry.getUserData = _
    rw [hentry]
    exact Function.update_self ..

/-- Only one token stays that of the accept requests. -/
theorem accept_setToken (h : Inv listener k₀ ⟨t, jobs, net⟩ s) {k : UInt64} (hk : k ≠ k₀)
    {token : Option Token} (hne : token ≠ some .accept) (k' : UInt64) :
    Function.update t.tokenAlloc k token k' = some .accept ↔ k' = k₀ := by
  by_cases heq : k' = k
  · rw [heq, Function.update_self]
    exact ⟨fun h => absurd h hne, fun h => absurd h hk⟩
  · rw [Function.update_of_ne heq]
    exact h.accept k'

/-- A request in place of the completion, and its token keeps the connection. -/
theorem fds_request (h : Inv listener k₀ ⟨t, .result cqe ::ₘ jobs, net⟩ s) (entry : Squeue.Entry)
    {old : Token} (ht : t.tokenAlloc cqe.userData = some old) {t' : Tables}
    (heq : t'.tokenAlloc = Function.update t.tokenAlloc cqe.userData (some token))
    (hsame : token.fd = old.fd) :
    Fds k₀ t' (.request entry ::ₘ jobs) net.opened := by
  have hrequest : Fds k₀ t (.request entry ::ₘ jobs) net.opened := by
    refine h.fds.ofLe ?_
    rw [arrivals_cons_none rfl]
    exact arrivals_le k₀ _ jobs
  have hkeep : Fds k₀ (t.setToken cqe.userData (some token)) (.request entry ::ₘ jobs)
      net.opened := hrequest.keep (hsame.trans (Tables.ofTokens_eq ht).symm)
  exact hkeep.ofTokens heq

theorem failedArm (h : Inv listener k₀ ⟨t, .result cqe ::ₘ jobs, net⟩ s) :
    Inv listener k₀ ⟨t, jobs, net⟩ s where
  work := h.work.change (Multiset.le_cons_self jobs _) fun _ _ token ht hx => ⟨token, ht, hx⟩
  accept := h.accept
  entry := h.entry
  bufs := h.bufs
  fds := h.fds.ofLe (arrivals_le k₀ _ jobs)
  sessions := h.sessions

theorem acceptedArm (h : Inv listener k₀ ⟨t, .result cqe ::ₘ jobs, net⟩ s)
    (hfresh : fresh.Vacant t) (hres : 0 ≤ cqe.res) (ht : t.tokenAlloc cqe.userData = some .accept) :
    Inv listener k₀
      ⟨{ t with accept.count := t.accept.count + 1 }.setToken fresh.token (some (.poll cqe.res)),
        .request (pollEntry cqe.res fresh.token) ::ₘ jobs, net⟩ s := by
  have hk : cqe.userData = k₀ := (h.accept _).mp ht
  have hvacant : t.tokenAlloc fresh.token = none := hfresh.token
  have hne : fresh.token ≠ k₀ := by
    intro heq
    have hsome := (h.accept fresh.token).mpr heq
    rw [hvacant] at hsome
    cases hsome
  have hidle : s.state cqe.res = some .idle :=
    (h.work.fits_of (Multiset.mem_cons_self _ jobs) ht hres).2
  have hrest : Inv listener k₀ ⟨t, jobs, net⟩ s := h.failedArm
  exact {
    work := by
      refine (hrest.work.enter hvacant).take (t := .poll cqe.res) (.inr ?_) ?_ ⟨hidle, rfl⟩
      · exact hrest.work.fresh hvacant
      · exact Function.update_self ..
    accept := hrest.accept_setToken hne (by simp)
    entry := h.entry
    bufs := by
      have hbufs : Bufs { t with accept.count := t.accept.count + 1 } := { h.bufs with }
      exact hbufs.keep (Tables.ofTokens_vacant hvacant).symm
    fds := by
      have hfds : Fds k₀ { t with accept.count := t.accept.count + 1 } (.result cqe ::ₘ jobs)
          net.opened := h.fds.ofTokens rfl
      refine hfds.adopt ?_ rfl
      rw [arrivals_cons_some (show arrival k₀ (.result cqe) = _ from if_pos ⟨hk, hres⟩),
        arrivals_cons_none rfl]
    sessions := h.sessions }

theorem pooledArm (h : Inv listener k₀ ⟨t, .result cqe ::ₘ jobs, net⟩ s) {rest : List UInt64}
    (ht : t.tokenAlloc cqe.userData = some (.poll fd)) (hpool : t.bufpool = b :: rest)
    (ha : t.bufAlloc b = some a) :
    Inv listener k₀
      ⟨{ t with bufpool := rest }.setToken cqe.userData (some (.read fd b)),
        .request (readEntry fd a cqe.userData) ::ₘ jobs, net⟩ s where
  work := by
    have hidle := h.work.fits_of (Multiset.mem_cons_self _ jobs) ht
    exact h.renew (h.key_ne ht (by simp)) rfl ⟨hidle, a, ha, rfl⟩ fun _ _ _ _ _ hx => hx
  accept := h.accept_setToken (h.key_ne ht (by simp)) (by simp)
  entry := h.entry
  bufs := h.bufs.takePooled hpool (Tables.ofTokens_eq ht) rfl
  fds := h.fds_request _ ht rfl rfl
  sessions := h.sessions

theorem allocatedArm (h : Inv listener k₀ ⟨t, .result cqe ::ₘ jobs, net⟩ s)
    (hfresh : fresh.Vacant t) (ht : t.tokenAlloc cqe.userData = some (.poll fd)) :
    Inv listener k₀
      ⟨{ t with bufAlloc := Function.update t.bufAlloc fresh.buf (some fresh.addr) }.setToken
          cqe.userData (some (.read fd fresh.buf)),
        .request (readEntry fd fresh.addr cqe.userData) ::ₘ jobs,
        { net with memory := net.memory.write fresh.addr (List.replicate bufSize 0) }⟩ s where
  work := by
    have hidle := h.work.fits_of (Multiset.mem_cons_self _ jobs) ht
    refine h.renew (h.key_ne ht (by simp)) rfl
      ⟨hidle, fresh.addr, Function.update_self .., rfl⟩ ?_
    refine fun x _ _ token _ hx => hx.frame (fun _ _ => ⟨rfl, fun hmem => hmem⟩) ?_
    intro b a _ ha
    have hold : b ≠ fresh.buf := by
      rintro rfl
      have hnone := hfresh.buf
      rw [show t.bufAlloc fresh.buf = some a from ha] at hnone
      cases hnone
    refine ⟨(Function.update_of_ne hold ..).trans ha, fun n hn => ?_⟩
    exact Memory.read_write_apart (hfresh.addr b a ha).symm (by simp) hn
  accept := h.accept_setToken (h.key_ne ht (by simp)) (by simp)
  entry := h.entry
  bufs := h.bufs.takeNew hfresh (Tables.ofTokens_eq ht) rfl
  fds := h.fds_request _ ht rfl rfl
  sessions := h.sessions

theorem endedArm (h : Inv listener k₀ ⟨t, .result cqe ::ₘ jobs, net⟩ s)
    (ht : t.tokenAlloc cqe.userData = some (.read fd b)) :
    Inv listener k₀
      ⟨{ t with bufpool := b :: t.bufpool }.setToken cqe.userData none, jobs,
        { net with opened := net.opened.erase fd }⟩ (s.setState fd none) where
  work := by
    have hfd : t.ofTokens Token.fd cqe.userData = some fd := Tables.ofTokens_eq ht
    refine h.work.settle (w := Job.result cqe) (h.key_ne ht (by simp)) ?_
    refine h.others_fit hfd ?_ fun k b a _ _ ha => ⟨ha, fun _ _ => rfl⟩
    intro fd' hfd'
    exact ⟨s.setState_of_ne hfd' _, fun hmem => Finset.mem_erase.mpr ⟨hfd', hmem⟩⟩
  accept := h.accept_setToken (h.key_ne ht (by simp)) (by simp)
  entry := h.entry
  bufs := h.bufs.release (Tables.ofTokens_eq ht) rfl
  fds := ((h.fds.ofLe (arrivals_le k₀ _ jobs)).close (Tables.ofTokens_eq ht)).ofTokens rfl
  sessions := by
    intro fd' hs
    by_cases heq : fd' = fd
    · rw [heq, s.setState_self] at hs
      exact absurd rfl hs
    · rw [s.setState_of_ne heq] at hs
      exact Finset.mem_erase.mpr ⟨heq, h.sessions fd' hs⟩

theorem receivedArm (h : Inv listener k₀ ⟨t, .result cqe ::ₘ jobs, net⟩ s)
    (ht : t.tokenAlloc cqe.userData = some (.read fd b)) (hres : 0 < cqe.res)
    (ha : t.bufAlloc b = some a) :
    Inv listener k₀
      ⟨t.setToken cqe.userData (some (.write fd b 0 cqe.res.toInt.toNat)),
        .request (sendEntry fd a cqe.res.toInt.toNat cqe.userData) ::ₘ jobs, net⟩ s where
  work := by
    refine h.renew (h.key_ne ht (by simp)) rfl ?_ fun _ _ _ _ _ hx => hx
    obtain hneg | ⟨hzero, -⟩ | ⟨a', message, hin, hlen, hholds⟩ :=
      h.work.fits_of (Multiset.mem_cons_self _ jobs) ht
    · exact (Int32.lt_irrefl (Int32.lt_trans hneg hres)).elim
    · rw [hzero] at hres
      exact (Int32.lt_irrefl hres).elim
    · obtain rfl : a = a' := Option.some.inj (ha.symm.trans hin.alloc)
      have hlength := hin.length_le
      have hto : cqe.res.toInt.toNat = message.length := by
        rw [hlen, toInt_ofNat (by rw [bufSize] at hlength; omega), Int.toNat_natCast]
      rw [hto]
      exact ⟨a, message, [], ⟨{ hin with }, .start, rfl⟩, hholds, .inl ⟨rfl, rfl⟩⟩
  accept := h.accept_setToken (h.key_ne ht (by simp)) (by simp)
  entry := h.entry
  bufs := by
    have hbuf : t.ofTokens Token.buf cqe.userData = some b := Tables.ofTokens_eq ht
    exact h.bufs.keep hbuf.symm
  fds := h.fds_request _ ht rfl rfl
  sessions := h.sessions

/-- What the completion of a write says. -/
theorem written (h : Inv listener k₀ ⟨t, .result cqe ::ₘ jobs, net⟩ s) {offset len : Nat}
    (ht : t.tokenAlloc cqe.userData = some (.write fd b offset len)) (hres : 0 ≤ cqe.res) :
    ∃ a message writes, Answering (Desk.view ⟨t, .result cqe ::ₘ jobs, net⟩ s) b a offset len
        message writes ∧ cqe.res.toInt.toNat ≤ len ∧
      s.state fd = some (sessionAfter message (writes ++ [cqe.res.toInt.toNat])) := by
  obtain hneg | ⟨a, message, writes, w, hanswers, hw, hlen, hafter⟩ :=
    h.work.fits_of (Multiset.mem_cons_self _ jobs) ht
  · exact absurd hneg (Int32.not_lt.mpr hres)
  · have hpos : 0 < message.length := List.length_pos_of_ne_nil hanswers.buffer.ne
    have hbound := (nextWrite_eq_some hanswers.next hpos).2.1
    have hlength := hanswers.buffer.length_le
    have hto : cqe.res.toInt.toNat = w := by
      rw [hlen, toInt_ofNat (by rw [bufSize] at hlength; omega), Int.toNat_natCast]
    rw [hto]
    exact ⟨a, message, writes, hanswers, hw, hafter⟩

theorem answeredArm (h : Inv listener k₀ ⟨t, .result cqe ::ₘ jobs, net⟩ s) {offset len : Nat}
    (ht : t.tokenAlloc cqe.userData = some (.write fd b offset len)) (hres : 0 ≤ cqe.res)
    (hdone : advance cqe.res.toInt.toNat (offset, len) = none) :
    Inv listener k₀
      ⟨{ t with bufpool := b :: t.bufpool }.setToken cqe.userData (some (.poll fd)),
        .request (pollEntry fd cqe.userData) ::ₘ jobs, net⟩ s where
  work := by
    refine h.renew (h.key_ne ht (by simp)) rfl ?_ fun _ _ _ _ _ hx => hx
    obtain ⟨a, message, writes, hanswers, -, hafter⟩ := h.written ht hres
    have hnone : serverAsks message.length (writes ++ [cqe.res.toInt.toNat]) = none := by
      rw [serverAsks, nextWrite_snoc, hanswers.next, Option.bind_some, hdone, Option.map_none]
    rw [sessionAfter, hnone] at hafter
    exact ⟨hafter, rfl⟩
  accept := h.accept_setToken (h.key_ne ht (by simp)) (by simp)
  entry := h.entry
  bufs := h.bufs.release (Tables.ofTokens_eq ht) rfl
  fds := h.fds_request _ ht rfl rfl
  sessions := h.sessions

theorem continuedArm (h : Inv listener k₀ ⟨t, .result cqe ::ₘ jobs, net⟩ s)
    {offset len offset' len' : Nat}
    (ht : t.tokenAlloc cqe.userData = some (.write fd b offset len)) (hres : 0 ≤ cqe.res)
    (hnext : advance cqe.res.toInt.toNat (offset, len) = some (offset', len'))
    (ha : t.bufAlloc b = some a) :
    Inv listener k₀
      ⟨t.setToken cqe.userData (some (.write fd b offset' len')),
        .request (writeEntry fd (a + .ofNat offset') len' cqe.userData) ::ₘ jobs, net⟩ s where
  work := by
    refine h.renew (h.key_ne ht (by simp)) rfl ?_ fun _ _ _ _ _ hx => hx
    obtain ⟨a', message, writes, hanswers, hw, hafter⟩ := h.written ht hres
    obtain rfl : a = a' := Option.some.inj (ha.symm.trans hanswers.buffer.alloc)
    have hmore : nextWrite message.length (writes ++ [cqe.res.toInt.toNat]) =
        some (offset', len') := by
      rw [nextWrite_snoc, hanswers.next, Option.bind_some, hnext]
    rw [sessionAfter, serverAsks, hmore] at hafter
    refine ⟨a, message, _, ⟨{ hanswers.buffer with }, ?_, hmore⟩, hafter, .inr rfl⟩
    exact .next hanswers.valid hanswers.next hw
  accept := h.accept_setToken (h.key_ne ht (by simp)) (by simp)
  entry := h.entry
  bufs := by
    have hbuf : t.ofTokens Token.buf cqe.userData = some b := Tables.ofTokens_eq ht
    exact h.bufs.keep hbuf.symm
  fds := h.fds_request _ ht rfl rfl
  sessions := h.sessions

end Inv

end IoUring.TcpEcho
