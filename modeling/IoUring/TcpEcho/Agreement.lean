import IoUring.TcpEcho.Custody

/-!
# The server answers every connection with what it received there

What the server holds in its tokens and buffers agrees with the sessions seen
from outside. A job depends only on its own token, buffer and connection, so a
step for one token leaves the jobs of all others as they are.
-/

namespace IoUring.TcpEcho

open Foundation Opcode

/-- What the jobs depend on. -/
structure View where
  bufAlloc : UInt64 → Option UInt64
  memory : Memory
  opened : Finset Int32
  sessions : Int32 → Option Session

def Desk.view (d : Desk) (s : Sessions) : View where
  bufAlloc := d.tables.bufAlloc
  memory := d.net.memory
  opened := d.net.opened
  sessions := s.state

/-- The buffer starts with this message. -/
structure InBuffer (v : View) (b a : UInt64) (message : List UInt8) : Prop where
  alloc : v.bufAlloc b = some a
  ne : message ≠ []
  length_le : message.length ≤ bufSize
  bytes : v.memory.read a message.length = message

/-- The message that a write token answers, with the writes so far. -/
structure Answering (v : View) (b a : UInt64) (offset len : Nat) (message : List UInt8)
    (writes : List Nat) : Prop where
  buffer : InBuffer v b a message
  valid : Writes message.length writes
  next : nextWrite message.length writes = some (offset, len)

/-- Where a session stands after these writes of a message. -/
def sessionAfter (message : List UInt8) (writes : List Nat) : Session :=
  match serverAsks message.length writes with
  | none => .idle
  | some _ => .holding message writes

/-- The job is one for this token as things are. -/
def Fits (listener : Int32) (v : View) : Token → Job → Prop
  | .accept, .request entry => entry = acceptEntry listener entry.getUserData
  | .accept, .result cqe =>
      0 ≤ cqe.res → cqe.res ∈ v.opened ∧ v.sessions cqe.res = some .idle
  | .poll fd, .request entry =>
      v.sessions fd = some .idle ∧ entry = pollEntry fd entry.getUserData
  | .poll fd, .result _ => v.sessions fd = some .idle
  | .read fd b, .request entry =>
      v.sessions fd = some .idle ∧
        ∃ a, v.bufAlloc b = some a ∧ entry = readEntry fd a entry.getUserData
  | .read fd b, .result cqe =>
      cqe.res < 0 ∨ cqe.res = 0 ∧ v.sessions fd = some .ended ∨
        ∃ a message, InBuffer v b a message ∧ cqe.res = .ofNat message.length ∧
          v.sessions fd = some (.holding message [])
  | .write fd b offset len, .request entry =>
      ∃ a message writes, Answering v b a offset len message writes ∧
        v.sessions fd = some (.holding message writes) ∧
        (offset = 0 ∧ entry = sendEntry fd a len entry.getUserData ∨
          entry = writeEntry fd (a + .ofNat offset) len entry.getUserData)
  | .write fd b offset len, .result cqe =>
      cqe.res < 0 ∨
        ∃ a message writes w, Answering v b a offset len message writes ∧ w ≤ len ∧
          cqe.res = .ofNat w ∧ v.sessions fd = some (sessionAfter message (writes ++ [w]))

/-- The connection that a job is about. -/
def socketOf : Token → Job → Option Int32
  | .accept, .request _ => none
  | .accept, .result cqe => if 0 ≤ cqe.res then some cqe.res else none
  | .poll fd, _ | .read fd _, _ | .write fd _ _ _, _ => some fd

theorem socketOf_of_ne {token : Token} (h : token ≠ .accept) (job : Job) :
    socketOf token job = token.fd := by
  cases token with
  | accept => exact absurd rfl h
  | _ => rfl

section Frame

variable {listener : Int32} {v v' : View} {b a : UInt64}

theorem InBuffer.frame {message : List UInt8} (h : InBuffer v b a message)
    (halloc : v'.bufAlloc b = some a)
    (hbytes : ∀ n ≤ bufSize, v'.memory.read a n = v.memory.read a n) :
    InBuffer v' b a message where
  alloc := halloc
  ne := h.ne
  length_le := h.length_le
  bytes := by
    rw [hbytes _ h.length_le]
    exact h.bytes

/-- Jobs see nothing of the world but their connection and their buffer. -/
theorem Fits.frame {token : Token} {job : Job} (h : Fits listener v token job)
    (hsession : ∀ fd, socketOf token job = some fd →
      v'.sessions fd = v.sessions fd ∧ (fd ∈ v.opened → fd ∈ v'.opened))
    (hbuf : ∀ b a, token.buf = some b → v.bufAlloc b = some a → v'.bufAlloc b = some a ∧
      ∀ n ≤ bufSize, v'.memory.read a n = v.memory.read a n) :
    Fits listener v' token job := by
  have hframe {b a : UInt64} {message : List UInt8} (hb : token.buf = some b)
      (h : InBuffer v b a message) : InBuffer v' b a message := by
    obtain ⟨halloc, hbytes⟩ := hbuf b a hb h.alloc
    exact h.frame halloc hbytes
  cases token with
  | accept =>
      cases job with
      | request => exact h
      | result cqe =>
          intro hres
          obtain ⟨hopen, hidle⟩ := h hres
          obtain ⟨hsame, hkeep⟩ := hsession cqe.res (if_pos hres)
          exact ⟨hkeep hopen, hsame.trans hidle⟩
  | poll fd =>
      have hsame := (hsession fd rfl).1
      cases job with
      | request => exact ⟨hsame.trans h.1, h.2⟩
      | result => exact hsame.trans h
  | read fd b =>
      have hsame := (hsession fd rfl).1
      cases job with
      | request =>
          obtain ⟨hidle, a, ha, hentry⟩ := h
          exact ⟨hsame.trans hidle, a, (hbuf b a rfl ha).1, hentry⟩
      | result =>
          obtain hres | ⟨hres, hended⟩ | ⟨a, message, hin, hres, hholds⟩ := h
          · exact .inl hres
          · exact .inr (.inl ⟨hres, hsame.trans hended⟩)
          · exact .inr (.inr ⟨a, message, hframe rfl hin, hres, hsame.trans hholds⟩)
  | write fd b offset len =>
      have hsame := (hsession fd rfl).1
      cases job with
      | request =>
          obtain ⟨a, message, writes, hanswers, hholds, hentry⟩ := h
          exact ⟨a, message, writes, { hanswers with buffer := hframe rfl hanswers.buffer },
            hsame.trans hholds, hentry⟩
      | result =>
          obtain hres | ⟨a, message, writes, w, hanswers, hw, hres, hafter⟩ := h
          · exact .inl hres
          · exact .inr ⟨a, message, writes, w,
              { hanswers with buffer := hframe rfl hanswers.buffer }, hw, hres,
              hsame.trans hafter⟩

/-- A request that fails leaves its connection as it is. -/
theorem Fits.error {token : Token} {entry : Squeue.Entry} {cqe : Cqueue.Entry}
    (h : Fits listener v token (.request entry)) (hres : cqe.res < 0) :
    Fits listener v token (.result cqe) := by
  cases token with
  | accept => exact fun hnonneg => absurd hres (Int32.not_lt.mpr hnonneg)
  | poll => exact h.1
  | read => exact .inl hres
  | write => exact .inl hres

end Frame

/-- The desk and the sessions agree. -/
structure Inv (listener : Int32) (k₀ : UInt64) (d : Desk) (s : Sessions) : Prop where
  work : Ticketed Job.key (· = k₀) (Fits listener (d.view s)) d.tables.tokenAlloc d.jobs
  accept : ∀ k, d.tables.tokenAlloc k = some .accept ↔ k = k₀
  entry : d.tables.accept.entry = acceptEntry listener k₀
  bufs : Bufs d.tables
  fds : Fds k₀ d.tables d.jobs d.net.opened
  sessions : ∀ fd, s.state fd ≠ none → fd ∈ d.net.opened

namespace Inv

variable {listener : Int32} {k₀ : UInt64} {t : Tables} {jobs : Multiset Job} {net net' : Net}
  {s s' : Sessions} {job job' : Job} {token : Token}

/-- The connection of any job in hand, other than that of the taken one, is not the taken one's. -/
theorem socket_ne (h : Inv listener k₀ ⟨t, job ::ₘ jobs, net⟩ s) {fd : Int32}
    (hfd : t.ofTokens Token.fd job.key = some fd) {x : Job} (hx : x ∈ jobs)
    (hne : x.key ≠ job.key) {token : Token} (hx' : t.tokenAlloc x.key = some token) :
    socketOf token x ≠ some fd := by
  by_cases haccept : token = .accept
  · subst haccept
    have hkey : x.key = k₀ := (h.accept x.key).mp hx'
    cases x with
    | request => simp [socketOf]
    | result cqe =>
        intro hsocket
        have hnot : ¬ (fd ∈ arrivals k₀ (job ::ₘ jobs)) :=
          fun hmem => (h.fds.arrived fd hmem).2 job.key hfd
        apply hnot
        refine (Multiset.mem_filterMap _ _).mpr ⟨.result cqe, Multiset.mem_cons_of_mem hx, ?_⟩
        rw [socketOf] at hsocket
        split at hsocket
        · rw [arrival, if_pos ⟨hkey, ‹_›⟩]
          exact hsocket
        · cases hsocket
  · rw [socketOf_of_ne haccept, ← @Tables.ofTokens_eq _ Token.fd _ _ _ hx']
    exact h.fds.once.ne hfd hne

/-- The connection of a job is open. -/
theorem socket_open (h : Inv listener k₀ ⟨t, jobs, net⟩ s) {x : Job} (hx : x ∈ jobs)
    (hx' : t.tokenAlloc x.key = some token) {fd : Int32} (hfd : socketOf token x = some fd) :
    fd ∈ net.opened := by
  have hfits := h.work.fits_of hx hx'
  by_cases haccept : token = .accept
  · subst haccept
    cases x with
    | request => simp [socketOf] at hfd
    | result cqe =>
        rw [socketOf] at hfd
        split at hfd
        · cases hfd
          exact (hfits ‹_›).1
        · cases hfd
  · rw [socketOf_of_ne haccept, ← @Tables.ofTokens_eq _ Token.fd _ _ _ hx'] at hfd
    exact h.fds.isOpen x.key fd hfd

/-- The other jobs fit a world that differs in one connection and its buffer. -/
theorem others_fit (h : Inv listener k₀ ⟨t, job ::ₘ jobs, net⟩ s) {fd : Int32}
    (hfd : t.ofTokens Token.fd job.key = some fd) {v : View}
    (hsessions : ∀ fd' ≠ fd, v.sessions fd' = s.state fd' ∧ (fd' ∈ net.opened → fd' ∈ v.opened))
    (hbuf : ∀ k b a, k ≠ job.key → t.ofTokens Token.buf k = some b → t.bufAlloc b = some a →
      v.bufAlloc b = some a ∧ ∀ n ≤ bufSize, v.memory.read a n = net.memory.read a n) :
    ∀ x ∈ jobs, x.key ≠ job.key → ∀ token, t.tokenAlloc x.key = some token →
      Fits listener (Desk.view ⟨t, job ::ₘ jobs, net⟩ s) token x → Fits listener v token x := by
  intro x hx hne token hx' hfits
  refine hfits.frame ?_ ?_
  · intro fd' hsocket
    apply hsessions
    rintro rfl
    exact h.socket_ne hfd hx hne hx' hsocket
  · intro b a hb ha
    apply hbuf x.key b a hne ?_ ha
    rw [Tables.ofTokens_eq hx']
    exact hb

theorem key_ne (h : Inv listener k₀ ⟨t, jobs, net⟩ s) {k : UInt64}
    (hk : t.tokenAlloc k = some token) (hne : token ≠ .accept) : k ≠ k₀ := by
  intro heq
  have haccept := (h.accept k).mpr heq
  rw [hk] at haccept
  cases haccept
  exact hne rfl

end Inv

end IoUring.TcpEcho
