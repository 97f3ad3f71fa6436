import IoUring.TcpEcho.Agreement

/-!
# The kernel's answers

Whatever the kernel answers to a request, desk and sessions agree again. What
it received is in the buffer, and what it sent is the next part of the message.
-/

namespace IoUring.TcpEcho

open Foundation Opcode

theorem toInt_ofNat {n : Nat} (h : n < 2 ^ 31) : (Int32.ofNat n).toInt = n :=
  Int32.toInt_ofNat_of_lt h

theorem toNat_ofNat_le (n : Nat) : (UInt32.ofNat n).toNat ≤ n := by
  rw [UInt32.toNat_ofNat']
  exact Nat.mod_le _ _

namespace Sessions

/-- After a write the connection stands where the writes say, and no other is touched. -/
theorem state_wrote (s : Sessions) (fd : Int32) (message : List UInt8) (writes : List Nat) :
    (s.wrote serverAsks fd message writes).state =
      Function.update s.state fd (some (sessionAfter message writes)) := by
  unfold wrote sessionAfter
  cases serverAsks message.length writes <;> rfl

end Sessions

/-- The part of the message that a write of `w` bytes sends. -/
theorem Answering.read_eq {v : View} {b a : UInt64} {offset len w : Nat} {message : List UInt8}
    {writes : List Nat} (h : Answering v b a offset len message writes) (hw : w ≤ len) :
    v.memory.read (a + .ofNat offset) w = (message.drop writes.sum).take w := by
  have hpos : 0 < message.length := List.length_pos_of_ne_nil h.buffer.ne
  obtain ⟨hsum, hle, -⟩ := nextWrite_eq_some h.next hpos
  rw [← hsum]
  nth_rewrite 1 [← h.buffer.bytes]
  rw [Memory.drop_read, Memory.take_read (by omega)]

namespace Inv

variable {listener : Int32} {k₀ : UInt64} {t : Tables} {jobs : Multiset Job} {net net' : Net}
  {s s' : Sessions} {entry : Squeue.Entry} {cqe : Cqueue.Entry} {token : Token} {fd : Int32}

/-- The completion of a request of a connection brings no descriptor. -/
theorem arrivals_result (h : Inv listener k₀ ⟨t, .request entry ::ₘ jobs, net⟩ s)
    (hkey : cqe.userData = entry.getUserData) (ht : t.tokenAlloc entry.getUserData = some token)
    (hne : token ≠ .accept) :
    arrivals k₀ (.result cqe ::ₘ jobs) = arrivals k₀ (.request entry ::ₘ jobs) := by
  have hk : (Job.result cqe).key ≠ k₀ := by
    change cqe.userData ≠ k₀
    rw [hkey]
    exact h.key_ne ht hne
  rw [arrivals_cons_none (arrival_of_ne hk), arrivals_cons_none rfl]

theorem error (h : Inv listener k₀ ⟨t, .request entry ::ₘ jobs, net⟩ s)
    (hkey : cqe.userData = entry.getUserData) (hres : cqe.res < 0) :
    Inv listener k₀ ⟨t, .result cqe ::ₘ jobs, net⟩ s where
  work := by
    obtain ⟨token, ht, hfits⟩ := h.work.live _ (Multiset.mem_cons_self _ jobs)
    exact h.work.replace hkey ht (hfits.error hres) fun _ _ _ _ _ hx => hx
  accept := h.accept
  entry := h.entry
  bufs := h.bufs
  fds := by
    refine h.fds.ofLe (le_of_eq ?_)
    have hnone : arrival k₀ (.result cqe) = none :=
      if_neg fun hcqe => absurd hres (Int32.not_lt.mpr hcqe.2)
    rw [arrivals_cons_none hnone, arrivals_cons_none rfl]
  sessions := h.sessions

theorem acceptAnswer (h : Inv listener k₀ ⟨t, .request entry ::ₘ jobs, net⟩ s)
    (ht : t.tokenAlloc entry.getUserData = some .accept)
    (hkey : cqe.userData = entry.getUserData) (hres : 0 ≤ cqe.res) (hnew : cqe.res ∉ net.opened) :
    Inv listener k₀
      ⟨t, .result cqe ::ₘ jobs, { net with opened := insert cqe.res net.opened }⟩
      (s.setState cqe.res (some .idle)) where
  work := by
    refine h.work.replace hkey ht ?_ ?_
    · intro _
      exact ⟨Finset.mem_insert_self .., s.setState_self ..⟩
    · intro x hx _ token hx' hfits
      refine hfits.frame ?_ fun b a _ ha => ⟨ha, fun _ _ => rfl⟩
      intro fd hfd
      have hopen := h.socket_open (Multiset.mem_cons_of_mem hx) hx' hfd
      refine ⟨Sessions.setState_of_ne ?_ s _, fun _ => Finset.mem_insert_of_mem hopen⟩
      rintro rfl
      exact hnew hopen
  accept := h.accept
  entry := h.entry
  bufs := h.bufs
  fds := by
    refine h.fds.arrive hnew ?_
    have hk : cqe.userData = k₀ := hkey.trans ((h.accept _).mp ht)
    rw [arrivals_cons_some (show arrival k₀ (.result cqe) = _ from if_pos ⟨hk, hres⟩),
      arrivals_cons_none rfl]
  sessions := by
    intro fd hfd
    by_cases heq : fd = cqe.res
    · rw [heq]
      exact Finset.mem_insert_self ..
    · rw [Sessions.setState_of_ne heq] at hfd
      exact Finset.mem_insert_of_mem (h.sessions fd hfd)

theorem pollAnswer (h : Inv listener k₀ ⟨t, .request entry ::ₘ jobs, net⟩ s)
    (ht : t.tokenAlloc entry.getUserData = some (.poll fd))
    (hkey : cqe.userData = entry.getUserData) :
    Inv listener k₀ ⟨t, .result cqe ::ₘ jobs, net⟩ s where
  work := by
    have hfits := h.work.fits_of (Multiset.mem_cons_self _ jobs) ht
    exact h.work.replace hkey ht hfits.1 fun _ _ _ _ _ hx => hx
  accept := h.accept
  entry := h.entry
  bufs := h.bufs
  fds := h.fds.ofLe (h.arrivals_result hkey ht (by simp)).le
  sessions := h.sessions

/-- One connection goes on, and its buffer may have been written. -/
theorem goOn (h : Inv listener k₀ ⟨t, .request entry ::ₘ jobs, net⟩ s)
    (ht : t.tokenAlloc entry.getUserData = some token) (hne : token ≠ .accept)
    (hfd : token.fd = some fd) (hkey : cqe.userData = entry.getUserData)
    (hopened : net'.opened = net.opened)
    (hstate : ∀ fd' ≠ fd, s'.state fd' = s.state fd')
    (hmemory : ∀ k b a, k ≠ entry.getUserData → t.ofTokens Token.buf k = some b →
      t.bufAlloc b = some a → ∀ n ≤ bufSize, net'.memory.read a n = net.memory.read a n)
    (hfits : Fits listener (Desk.view ⟨t, .result cqe ::ₘ jobs, net'⟩ s') token (.result cqe)) :
    Inv listener k₀ ⟨t, .result cqe ::ₘ jobs, net'⟩ s' where
  work := by
    have hfd' : t.ofTokens Token.fd (Job.request entry).key = some fd :=
      (Tables.ofTokens_eq ht).trans hfd
    refine h.work.replace hkey ht hfits ?_
    intro x hx hx₀ token hx' hfits
    refine h.others_fit hfd' ?_ ?_ x hx (hx₀ (h.key_ne ht hne)) token hx' hfits
    · intro fd' hfd'
      refine ⟨hstate fd' hfd', fun hmem => ?_⟩
      change fd' ∈ net'.opened
      rwa [hopened]
    · intro k b a hk hb ha
      exact ⟨ha, hmemory k b a hk hb ha⟩
  accept := h.accept
  entry := h.entry
  bufs := h.bufs
  fds := by
    have hopen : Fds k₀ t (.result cqe ::ₘ jobs) net.opened :=
      h.fds.ofLe (h.arrivals_result hkey ht hne).le
    rw [← hopened] at hopen
    exact hopen
  sessions := by
    intro fd' hs
    change fd' ∈ net'.opened
    rw [hopened]
    by_cases heq : fd' = fd
    · rw [heq]
      exact h.fds.isOpen entry.getUserData fd ((Tables.ofTokens_eq ht).trans hfd)
    · rw [hstate fd' heq] at hs
      exact h.sessions fd' hs

theorem recvAnswer (h : Inv listener k₀ ⟨t, .request entry ::ₘ jobs, net⟩ s) {b a : UInt64}
    (ht : t.tokenAlloc entry.getUserData = some (.read fd b)) (ha : t.bufAlloc b = some a)
    (hkey : cqe.userData = entry.getUserData) {bytes : List UInt8}
    (hlen : bytes.length ≤ bufSize) (hres : cqe.res = .ofNat bytes.length) :
    ∃ s', Sessions.Step serverAsks s (.received fd bytes) s' ∧
      Inv listener k₀
        ⟨t, .result cqe ::ₘ jobs, { net with memory := net.memory.write a bytes }⟩ s' := by
  have hidle : s.state fd = some .idle :=
    (h.work.fits_of (Multiset.mem_cons_self _ jobs) ht).1
  have hmemory (k b' a' : UInt64) (hk : k ≠ entry.getUserData)
      (hb' : t.ofTokens Token.buf k = some b') (ha' : t.bufAlloc b' = some a') :
      ∀ n ≤ bufSize, (net.memory.write a bytes).read a' n = net.memory.read a' n := by
    have hb : t.ofTokens Token.buf entry.getUserData = some b := Tables.ofTokens_eq ht
    have hne : b ≠ b' := by
      rintro rfl
      exact h.bufs.once.ne hb hk hb'
    exact fun n hn => Memory.read_write_apart (h.bufs.apart b b' a a' ha ha' hne) hlen hn
  by_cases hempty : bytes = []
  · subst hempty
    refine ⟨s.setState fd (some .ended), .ended hidle, ?_⟩
    refine h.goOn ht (by simp) rfl hkey rfl (fun fd' hfd' => s.setState_of_ne hfd' _) hmemory ?_
    exact .inr (.inl ⟨hres, s.setState_self ..⟩)
  · refine ⟨s.setState fd (some (.holding bytes [])), .received hidle hempty, ?_⟩
    refine h.goOn ht (by simp) rfl hkey rfl (fun fd' hfd' => s.setState_of_ne hfd' _) hmemory ?_
    refine .inr (.inr ⟨a, bytes, ?_, hres, s.setState_self ..⟩)
    exact
      { alloc := ha
        ne := hempty
        length_le := hlen
        bytes := Memory.read_write (by
          rw [bufSize] at hlen
          omega) }

/-- The answer to a write request, whichever of the two operations it is. -/
theorem writeAnswer (h : Inv listener k₀ ⟨t, .request entry ::ₘ jobs, net⟩ s) {b a : UInt64}
    {offset len w : Nat} {message : List UInt8} {writes : List Nat}
    (ht : t.tokenAlloc entry.getUserData = some (.write fd b offset len))
    (hanswers : Answering (Desk.view ⟨t, .request entry ::ₘ jobs, net⟩ s) b a offset len
      message writes)
    (hholds : s.state fd = some (.holding message writes))
    (hkey : cqe.userData = entry.getUserData) (hw : w ≤ len) (hres : cqe.res = .ofNat w) :
    ∃ s', Sessions.Step serverAsks s
        (.sent fd (net.memory.read (a + .ofNat offset) w)) s' ∧
      Inv listener k₀ ⟨t, .result cqe ::ₘ jobs, net⟩ s' := by
  have hstep : Sessions.Step serverAsks s (.sent fd (net.memory.read (a + .ofNat offset) w)) _ :=
    .sent hholds (show serverAsks message.length writes = some len by
      rw [serverAsks, hanswers.next, Option.map_some]) (by rwa [Memory.length_read])
      (by rw [Memory.length_read]; exact hanswers.read_eq hw)
  rw [Memory.length_read] at hstep
  refine ⟨_, hstep, ?_⟩
  refine h.goOn ht (by simp) rfl hkey rfl ?_ (fun _ _ _ _ _ _ _ _ => rfl) ?_
  · intro fd' hfd'
    rw [Sessions.state_wrote, Function.update_of_ne hfd']
  · refine .inr ⟨a, message, writes, w, ?_, hw, hres, ?_⟩
    · exact { hanswers with buffer := { hanswers.buffer with } }
    · change (s.wrote serverAsks fd message (writes ++ [w])).state fd = _
      rw [Sessions.state_wrote, Function.update_self]

/-- The kernel's step: what it answers is a step of the sessions. -/
theorem answer (h : Inv listener k₀ ⟨t, .request entry ::ₘ jobs, net⟩ s) {op : Op}
    (hop : decode (.entry entry) = some op) (hkey : cqe.userData = entry.getUserData)
    {event : Event} (hanswer : Answer net op cqe.res event net') :
    ∃ s', Sessions.Step serverAsks s event s' ∧
      Inv listener k₀ ⟨t, .result cqe ::ₘ jobs, net'⟩ s' := by
  generalize hres : cqe.res = res at hanswer
  obtain ⟨token, ht, hfits⟩ := h.work.live _ (Multiset.mem_cons_self _ jobs)
  change t.tokenAlloc entry.getUserData = some token at ht
  cases token with
  | accept =>
      have hentry : entry = acceptEntry listener entry.getUserData := hfits
      rw [hentry, decode_acceptEntry] at hop
      cases hop
      cases hanswer with
      | error _ hneg => exact ⟨s, .quiet, h.error hkey (hres ▸ hneg)⟩
      | accept _ hnonneg hnew =>
          subst hres
          have hvacant : s.state cqe.res = none := by
            by_contra hsome
            exact hnew (h.sessions cqe.res hsome)
          exact ⟨_, .accepted hvacant, h.acceptAnswer ht hkey hnonneg hnew⟩
  | poll fd =>
      rw [hfits.2, decode_pollEntry] at hop
      cases hop
      cases hanswer with
      | error _ hneg => exact ⟨s, .quiet, h.error hkey (hres ▸ hneg)⟩
      | poll => exact ⟨s, .quiet, h.pollAnswer ht hkey⟩
  | read fd b =>
      obtain ⟨-, a, ha, hentry⟩ := hfits
      rw [hentry, decode_readEntry] at hop
      cases hop
      cases hanswer with
      | error _ hneg => exact ⟨s, .quiet, h.error hkey (hres ▸ hneg)⟩
      | recv bytes hfd hlen =>
          cases hfd
          exact h.recvAnswer ht ha hkey (hlen.trans (toNat_ofNat_le _)) hres
  | write fd b offset len =>
      obtain ⟨a, message, writes, hanswers, hholds, ⟨rfl, hentry⟩ | hentry⟩ := hfits
      · rw [hentry, decode_sendEntry] at hop
        cases hop
        cases hanswer with
        | error _ hneg => exact ⟨s, .quiet, h.error hkey (hres ▸ hneg)⟩
        | send w hfd hlen =>
            cases hfd
            have hsent := h.writeAnswer ht hanswers hholds hkey (hlen.trans (toNat_ofNat_le _)) hres
            rwa [show a + UInt64.ofNat 0 = a from UInt64.add_zero a] at hsent
      · rw [hentry, decode_writeEntry] at hop
        cases hop
        cases hanswer with
        | error _ hneg => exact ⟨s, .quiet, h.error hkey (hres ▸ hneg)⟩
        | write w hfd hlen =>
            cases hfd
            exact h.writeAnswer ht hanswers hholds hkey (hlen.trans (toNat_ofNat_le _)) hres

end Inv

end IoUring.TcpEcho
