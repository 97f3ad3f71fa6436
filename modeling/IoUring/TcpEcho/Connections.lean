import IoUring.TcpEcho.Queues

/-!
# What holds on every connection

Over every run of the server and the kernel: no arm panics, every connection
gets back what it sent, and no two requests in hand share a byte of memory.
-/

namespace IoUring.TcpEcho

open Foundation Opcode Submit

variable {s : Submitter} {queue : Squeue.Inner Squeue.Entry} {ring : Cqueue.Inner Cqueue.Entry}
  {listener : Int32} {k₀ : UInt64} {net : Net} {labels : List Label} {σ : State}

/-- Every run agrees with sessions that saw the same. -/
theorem agrees (hqueue : queue.tail = queue.head) (hring : ring.tail = ring.head)
    (run : Run (Step s) (State.start queue ring listener k₀ net) labels σ) :
    Sound σ ∧ ∃ sessions, Run (Sessions.Step serverAsks) .start (eventsOf labels) sessions ∧
      Inv listener k₀ σ.desk sessions := by
  obtain ⟨hsound, hdesk⟩ := Sound.run hqueue hring run
  exact ⟨hsound, Desk.run hdesk⟩

/-! ## A turn of the loop -/

section Turn

variable {σ₀ : State} {call : EnterCall} {left : Nat} {accept : AcceptCount}
  {sq : Squeue.SubmissionQueue}

/-- From the last completion into the next wait. -/
theorem into_wait (run : Run (Step s) σ₀ labels σ) (hpc : σ.pc = .serve)
    (hnext : σ.cq.next σ.ring = none)
    (hcall : s.submitAndWait 1 (sqLen σ.queue.head σ.queue.tail) σ.queue.flags σ.queue.flags =
      .enter call) :
    Run (Step s) σ₀ (labels ++ [.seen .quiet, .seen .quiet])
      { σ with pc := .waiting call call.toSubmit.toNat } := by
  have run := (run.next (.served hpc hnext)).next (.wait rfl hcall)
  rwa [List.append_assoc] at run

/-- From the end of a wait to the new completions, with room in the queue and no backlog. -/
theorem out_of_wait (run : Run (Step s) σ₀ labels σ) (hpc : σ.pc = .waiting call left)
    (hfree : σ.sq.isFull σ.queue = false) (hbacklog : σ.backlog = [])
    (hpush : σ.tables.accept.pushTo (σ.sq.sync σ.queue).1 (σ.sq.sync σ.queue).2 =
      (accept, sq, queue)) :
    Run (Step s) σ₀
      (labels ++ [.waited left, .seen .quiet, .seen .quiet, .seen .quiet, .seen .quiet,
        .seen .quiet])
      { σ with
        ring := σ.cq.storeHead σ.ring
        cq := (σ.cq.sync σ.ring).1
        tables := { σ.tables with accept }
        sq
        queue
        pc := .serve } := by
  have run := ((run.next (.waited hpc)).next (.cqStore rfl)).next (.cqLoad rfl)
  have run := (run.next (.cleanFree rfl hfree)).next (.cleanDone rfl hbacklog rfl)
  have run := run.next (.accept rfl hpush)
  simp only [List.append_assoc, List.cons_append, List.nil_append] at run
  exact run

/-- With a full queue, it is submitted first. -/
theorem out_of_wait_full (run : Run (Step s) σ₀ labels σ) (hpc : σ.pc = .waiting call left)
    (hfull : σ.sq.isFull σ.queue = true) {call' : EnterCall}
    (hcall : s.submit (sqLen σ.queue.head σ.queue.tail) σ.queue.flags σ.queue.flags = .enter call')
    (hbacklog : σ.backlog = [])
    (hpush : σ.tables.accept.pushTo (σ.sq.sync σ.queue).1 (σ.sq.sync σ.queue).2 =
      (accept, sq, queue)) :
    Run (Step s) σ₀
      (labels ++ [.waited left, .seen .quiet, .seen .quiet, .seen .quiet,
        .submitted call'.toSubmit.toNat, .seen .quiet, .seen .quiet])
      { σ with
        ring := σ.cq.storeHead σ.ring
        cq := (σ.cq.sync σ.ring).1
        tables := { σ.tables with accept }
        sq
        queue
        pc := .serve } := by
  have run := ((run.next (.waited hpc)).next (.cqStore rfl)).next (.cqLoad rfl)
  have run := (run.next (.cleanFull rfl hfull hcall)).next (.submitted rfl)
  have run := (run.next (.cleanDone rfl hbacklog rfl)).next (.accept rfl hpush)
  simp only [List.append_assoc, List.cons_append, List.nil_append] at run
  exact run

end Turn

/-! ## A small server -/

/-- Two submission slots, with the counters about to wrap. -/
def smallQueue : Squeue.Inner Squeue.Entry where
  toRingSize := .two
  head := 4294967295
  tail := 4294967295
  flags := 0
  dropped := 0
  sqes := fun _ => ⟨Squeue.sqeZeroed⟩

def smallRing : Cqueue.Inner Cqueue.Entry where
  ringEntries := 4
  ringMask := 3
  log2 := 2
  log2_le := by decide
  ringEntries_eq := by decide
  ringMask_eq := by decide
  head := 0
  tail := 0
  overflow := 0
  flags := 0
  cqes := fun _ => ⟨0, 0, 0⟩

/-- A submitter without SQPOLL. -/
def plainSubmitter : Submitter where
  fd := 3
  params := Parameters.zeroed

def State.small : State :=
  .start smallQueue smallRing 4 0 { memory := fun _ => 0, opened := ∅ }

/-- Three connections have arrived, and the server is about to see them in one round. -/
def State.arrived : State where
  queue :=
    { smallQueue with
      head := 2
      tail := 2
      sqes := [(1, acceptEntry 4 0), (0, acceptEntry 4 0), (1, acceptEntry 4 0)].foldl
        (fun sqes p => Function.update sqes p.1 p.2) smallQueue.sqes }
  sq := { head := 2, tail := 2 }
  ring :=
    { smallRing with
      tail := 3
      cqes := [(0, ⟨0, 5, 0⟩), (1, ⟨0, 6, 0⟩), (2, ⟨0, 7, 0⟩)].foldl
        (fun cqes p => Function.update cqes p.1 p.2) smallRing.cqes }
  cq := { head := 0, tail := 3 }
  working := []
  overflow := []
  backlog := []
  tables := { Tables.start 4 0 with accept.count := 0 }
  net := { memory := fun _ => 0, opened := {7, 6, 5} }
  pc := .serve

theorem arrived_reached : ∃ labels, Run (Step plainSubmitter) .small labels .arrived := by
  have run : Run (Step plainSubmitter) .small [] _ := .start
  have run := (run.next (.setup rfl rfl)).next (.wait rfl rfl)
  have run := (run.next (.consume rfl rfl)).next (.consume rfl rfl)
  have run := out_of_wait_full run rfl (by decide +kernel) rfl rfl rfl
  have run := into_wait run rfl (if_neg (by decide +kernel)) rfl
  have run := run.next (.consume rfl rfl)
  -- the connections get the descriptors 5, 6 and 7
  have run := run.next (@Step.answer _ _ _ _ _ ⟨0, 5, 0⟩ _ _ _ [] rfl (decode_acceptEntry 4 0) rfl
    (.accept rfl (by decide) (by decide +kernel)) rfl rfl)
  have run := run.next (@Step.answer _ _ _ _ _ ⟨0, 6, 0⟩ _ _ _ [] rfl (decode_acceptEntry 4 0) rfl
    (.accept rfl (by decide) (by decide +kernel)) rfl rfl)
  have run := run.next (@Step.answer _ _ _ _ _ ⟨0, 7, 0⟩ _ _ _ [] rfl (decode_acceptEntry 4 0) rfl
    (.accept rfl (by decide) (by decide +kernel)) rfl rfl)
  have run := out_of_wait run rfl (by decide +kernel) rfl rfl
  exact ⟨_, run⟩

/-- The queue had room for the requests of two of them. -/
def State.crowded : State :=
  { State.arrived with
    queue :=
      { State.arrived.queue with
        sqes := [(0, pollEntry 5 1), (1, pollEntry 6 2)].foldl
          (fun sqes p => Function.update sqes p.1 p.2) State.arrived.queue.sqes }
    sq := { head := 2, tail := 4 }
    cq := { head := 3, tail := 3 }
    backlog := [pollEntry 7 3]
    tables :=
      { Tables.start 4 0 with
        tokenAlloc := [(1, Token.poll 5), (2, .poll 6), (3, .poll 7)].foldl
          (fun table p => Function.update table p.1 (some p.2)) (Tables.start 4 0).tokenAlloc }
    pc := .wait }

theorem crowded_reached : ∃ labels, Run (Step plainSubmitter) .small labels .crowded := by
  obtain ⟨labels, run⟩ := arrived_reached
  have run := run.next (@Step.serve _ _ ⟨0, 5, 0⟩ _ ⟨1, 0, 0⟩ _ _ _ _ _ rfl rfl
    ⟨by decide +kernel, rfl, nofun⟩ rfl rfl)
  have run := run.next (@Step.serve _ _ ⟨0, 6, 0⟩ _ ⟨2, 0, 0⟩ _ _ _ _ _ rfl rfl
    ⟨by decide +kernel, rfl, nofun⟩ rfl rfl)
  have run := run.next (@Step.serve _ _ ⟨0, 7, 0⟩ _ ⟨3, 0, 0⟩ _ _ _ _ _ rfl rfl
    ⟨by decide +kernel, rfl, nofun⟩ rfl rfl)
  have run := run.next (.served rfl (if_neg (by decide +kernel)))
  exact ⟨_, run⟩

/-- The server is about to drop the request that found no room. -/
def State.overrun : State :=
  { State.crowded with
    ring := { State.crowded.ring with head := 3 }
    pc := .cleanSync }

theorem overrun_reached : ∃ labels, Run (Step plainSubmitter) .crowded labels .overrun ∧
    (∀ left, .busy left ∉ labels) ∧ ∀ entry, .dropped entry ∉ eventsOf labels := by
  have run : Run (Step plainSubmitter) .crowded [] _ := .start
  have run := ((run.next (.wait rfl rfl)).next (.waited rfl)).next (.cqStore rfl)
  have run := (run.next (.cqLoad rfl)).next (.cleanFull rfl (by decide +kernel) rfl)
  have run := run.next (.submitted rfl)
  exact ⟨_, run, by simp, by simp [eventsOf, Label.event]⟩

def State.dropped : State :=
  { State.overrun with
    queue := { State.overrun.queue with tail := 4 }
    backlog := []
    pc := .clean }

theorem overrun_step : Step plainSubmitter .overrun (.seen (.dropped (pollEntry 7 3))) .dropped :=
  .cleanDrop rfl rfl rfl rfl

/-- The other two connections have something to read. -/
def State.readable : State :=
  { State.dropped with
    queue :=
      { State.dropped.queue with
        head := 6
        tail := 7
        sqes := [(0, acceptEntry 4 0), (1, acceptEntry 4 0), (0, acceptEntry 4 0)].foldl
          (fun sqes p => Function.update sqes p.1 p.2) State.dropped.queue.sqes }
    sq := { head := 6, tail := 7 }
    ring :=
      { State.dropped.ring with
        tail := 5
        cqes := [(3, ⟨1, 1, 0⟩), (0, ⟨2, 1, 0⟩)].foldl
          (fun cqes p => Function.update cqes p.1 p.2) State.dropped.ring.cqes }
    cq := { head := 3, tail := 5 }
    working := [acceptEntry 4 0, acceptEntry 4 0]
    tables := { State.dropped.tables with accept.count := 0 }
    pc := .serve }

theorem readable_reached : ∃ labels, Run (Step plainSubmitter) .dropped labels .readable := by
  have run : Run (Step plainSubmitter) .dropped [] _ := .start
  have run := run.next (.cleanFull rfl (by decide +kernel) rfl)
  have run := ((run.next (.consume rfl rfl)).next (.consume rfl rfl)).next (.submitted rfl)
  have run := (run.next (.cleanDone rfl rfl rfl)).next (.accept rfl rfl)
  have run := into_wait run rfl (if_neg (by decide +kernel)) rfl
  have run := (run.next (.consume rfl rfl)).next (.consume rfl rfl)
  have run := run.next (@Step.answer _ _ _ _ _ ⟨1, 1, 0⟩ _ _ _ [] rfl (decode_pollEntry 5 1) rfl
    (.poll rfl (by decide)) rfl rfl)
  have run := run.next (@Step.answer _ _ _ _ _ ⟨2, 1, 0⟩ _ _ _ [] rfl (decode_pollEntry 6 2) rfl
    (.poll rfl (by decide)) rfl rfl)
  have run := out_of_wait_full run rfl (by decide +kernel) rfl rfl rfl
  exact ⟨_, run⟩

/-- Both are about to be read, the second from the backlog. -/
def State.reading : State :=
  { State.readable with
    queue :=
      { State.readable.queue with
        sqes := Function.update State.readable.queue.sqes 1 (readEntry 5 8192 1) }
    sq := { head := 6, tail := 8 }
    cq := { head := 5, tail := 5 }
    backlog := [readEntry 6 16384 2]
    tables :=
      { State.readable.tables with
        tokenAlloc := [(1, Token.read 5 0), (2, .read 6 1)].foldl
          (fun table p => Function.update table p.1 (some p.2)) State.readable.tables.tokenAlloc
        bufAlloc := [(0, 8192), (1, 16384)].foldl
          (fun table p => Function.update table p.1 (some p.2)) State.readable.tables.bufAlloc }
    net :=
      { State.readable.net with
        memory := [8192, 16384].foldl
          (fun memory addr => memory.write addr (List.replicate bufSize 0))
          State.readable.net.memory }
    pc := .wait }

/-- Buffers one after the other share no byte. -/
theorem buffers_apart {a b : UInt64} (h : a.toNat + bufSize ≤ b.toNat)
    (hb : b.toNat + bufSize ≤ 2 ^ 64) : Memory.Apart a bufSize b bufSize := by
  intro i hi j hj heq
  rw [bufSize] at h hb hi hj
  have hi' : (UInt64.ofNat i).toNat = i := UInt64.toNat_ofNat_of_lt (Nat.lt_trans hi (by decide))
  have hj' : (UInt64.ofNat j).toNat = j := UInt64.toNat_ofNat_of_lt (Nat.lt_trans hj (by decide))
  have hnat := congrArg UInt64.toNat heq
  rw [UInt64.toNat_add, UInt64.toNat_add, hi', hj', Nat.mod_eq_of_lt (by omega),
    Nat.mod_eq_of_lt (by omega)] at hnat
  omega

theorem reading_reached : ∃ labels, Run (Step plainSubmitter) .readable labels .reading := by
  have hapart (b a : UInt64) (hb : Function.update (fun _ => none) 0 (some 8192) b = some a) :
      Memory.Apart a bufSize 16384 bufSize := by
    by_cases h : b = 0
    · subst h
      cases hb
      exact buffers_apart (by decide) (by decide)
    · rw [Function.update_of_ne h] at hb
      cases hb
  have run : Run (Step plainSubmitter) .readable [] _ := .start
  have run := run.next (@Step.serve _ _ ⟨1, 1, 0⟩ _ ⟨9, 0, 8192⟩ _ _ _ _ _ rfl rfl
    ⟨by decide +kernel, rfl, nofun⟩ rfl rfl)
  have run := run.next (@Step.serve _ _ ⟨2, 1, 0⟩ _ ⟨9, 1, 16384⟩ _ _ _ _ _ rfl rfl
    ⟨by decide +kernel, rfl, hapart⟩ rfl rfl)
  exact ⟨_, run.next (.served rfl (if_neg (by decide +kernel)))⟩

/-- The whole run. -/
theorem reading_run : ∃ labels, Run (Step plainSubmitter) .small labels .reading := by
  obtain ⟨labels, run⟩ := crowded_reached
  obtain ⟨more, overrun, -⟩ := overrun_reached
  obtain ⟨labels', readable⟩ := readable_reached
  obtain ⟨labels'', reading⟩ := reading_reached
  exact ⟨_, (((run.trans overrun).next overrun_step).trans readable).trans reading⟩

/-- A third buffer would be apart from the two. -/
theorem reading_vacant (b a : UInt64) (hb : State.reading.tables.bufAlloc b = some a) :
    Memory.Apart a bufSize 24576 bufSize := by
  change Function.update (Function.update (fun _ => none) 0 (some 8192)) 1 (some 16384) b =
    some a at hb
  by_cases h₁ : b = 1
  · subst h₁
    cases hb
    exact buffers_apart (by decide) (by decide)
  · rw [Function.update_of_ne h₁] at hb
    by_cases h₀ : b = 0
    · subst h₀
      cases hb
      exact buffers_apart (by decide) (by decide)
    · rw [Function.update_of_ne h₀] at hb
      cases hb

/-- The first connection has sent two bytes, which are on their way back, and the server is about
to see what the second one has sent. -/
def State.holding : State :=
  { State.reading with
    queue :=
      { State.reading.queue with
        head := 9
        tail := 10
        sqes := [(0, readEntry 6 16384 2), (1, sendEntry 5 8192 2 1)].foldl
          (fun sqes p => Function.update sqes p.1 p.2) State.reading.queue.sqes }
    sq := { head := 9, tail := 10 }
    ring :=
      { State.reading.ring with
        head := 6
        tail := 7
        cqes := [(1, ⟨1, 2, 0⟩), (2, ⟨2, 1, 0⟩)].foldl
          (fun cqes p => Function.update cqes p.1 p.2) State.reading.ring.cqes }
    cq := { head := 6, tail := 7 }
    working := [acceptEntry 4 0, acceptEntry 4 0, acceptEntry 4 0]
    backlog := []
    tables := State.reading.tables.setToken 1 (some (.write 5 0 0 2))
    net :=
      { State.reading.net with
        memory := (State.reading.net.memory.write 8192 [104, 105]).write 16384 [33] }
    pc := .serve }

def holdingLabels : List Label :=
  let quiet : Label := .seen .quiet
  [quiet, quiet, .waited 0, quiet, quiet, quiet, .submitted 0, quiet, quiet, quiet, .submitted 0,
    quiet, quiet, quiet, .seen (.received 5 [104, 105]), quiet, quiet, .waited 0, quiet, quiet,
    quiet, quiet, quiet, .served ⟨1, 2, 0⟩ { push := some (sendEntry 5 8192 2 1) }, quiet, quiet,
    .seen (.received 6 [33]), .waited 0, quiet, quiet, quiet, quiet, quiet]

theorem holding_reached : Run (Step plainSubmitter) .reading holdingLabels .holding := by
  have run : Run (Step plainSubmitter) .reading [] _ := .start
  have run := ((run.next (.wait rfl rfl)).next (.consume rfl rfl)).next (.waited rfl)
  have run := (run.next (.cqStore rfl)).next (.cqLoad rfl)
  have run := run.next (.cleanFull rfl (by decide +kernel) rfl)
  have run := (run.next (.submitted rfl)).next (.cleanPush rfl rfl rfl rfl)
  have run := run.next (.cleanFull rfl (by decide +kernel) rfl)
  have run := ((run.next (.consume rfl rfl)).next (.submitted rfl)).next (.cleanDone rfl rfl rfl)
  have run := (run.next (.accept rfl rfl)).next (.served rfl (if_neg (by decide +kernel)))
  have run := run.next (@Step.answer _ _ _ _ _ ⟨1, 2, 0⟩ _ _ _
    [acceptEntry 4 0, acceptEntry 4 0, acceptEntry 4 0] rfl (decode_readEntry 5 8192 1) rfl
    (.recv [104, 105] rfl (by decide) (by decide)) rfl rfl)
  have run := (run.next (.wait rfl rfl)).next (.consume rfl rfl)
  have run := out_of_wait run rfl (by decide +kernel) rfl rfl
  have run := run.next (@Step.serve _ _ ⟨1, 2, 0⟩ _ ⟨9, 9, 24576⟩ _ _ _ _ _ rfl rfl
    ⟨by decide +kernel, by decide +kernel, reading_vacant⟩ rfl rfl)
  have run := into_wait run rfl (if_neg (by decide +kernel)) rfl
  have run := run.next (@Step.answer _ _ _ _ _ ⟨2, 1, 0⟩ _ _ _
    [acceptEntry 4 0, acceptEntry 4 0, acceptEntry 4 0] rfl (decode_readEntry 6 16384 2) rfl
    (.recv [33] rfl (by decide) (by decide)) rfl rfl)
  exact out_of_wait run rfl (by decide +kernel) rfl rfl

/-- One of the two bytes has been sent back. -/
def State.sent : State :=
  { State.holding with
    queue :=
      { State.holding.queue with
        head := 10
        tail := 11
        sqes := Function.update State.holding.queue.sqes 0 (sendEntry 6 16384 1 2) }
    sq := { head := 10, tail := 11 }
    ring :=
      { State.holding.ring with
        head := 7
        tail := 8
        cqes := Function.update State.holding.ring.cqes 3 ⟨1, 1, 0⟩ }
    cq := { head := 7, tail := 8 }
    tables := State.holding.tables.setToken 2 (some (.write 6 1 0 1)) }

theorem sent_reached : ∃ labels, Run (Step plainSubmitter) .holding labels .sent ∧
    .sent 5 [104] ∈ eventsOf labels := by
  have run : Run (Step plainSubmitter) .holding [] _ := .start
  have run := run.next (@Step.serve _ _ ⟨2, 1, 0⟩ _ ⟨9, 9, 24576⟩ _ _ _ _ _ rfl rfl
    ⟨by decide +kernel, by decide +kernel, reading_vacant⟩ rfl rfl)
  have run := into_wait run rfl (if_neg (by decide +kernel)) rfl
  have run := run.next (.consume rfl rfl)
  have run := run.next (@Step.answer _ _ _ _ _ ⟨1, 1, 0⟩ _ _ _
    [acceptEntry 4 0, acceptEntry 4 0, acceptEntry 4 0] rfl (decode_sendEntry 5 8192 2 1) rfl
    (.send 1 rfl (by decide) (by decide)) rfl rfl)
  have run := out_of_wait_full run rfl (by decide +kernel) rfl rfl rfl
  have hread : State.holding.net.memory.read 8192 1 = [104] := by decide +kernel
  exact ⟨_, run, by simp [eventsOf, Label.event, Reply.apply, hread]⟩

/-- So has the other one, from within the buffer. -/
def State.answered : State :=
  { State.sent with
    queue :=
      { State.sent.queue with
        head := 12
        tail := 12
        sqes := Function.update State.sent.queue.sqes 1 (writeEntry 5 8193 1 1) }
    sq := { head := 12, tail := 12 }
    ring :=
      { State.sent.ring with
        head := 8
        tail := 9
        cqes := Function.update State.sent.ring.cqes 0 ⟨1, 1, 0⟩ }
    cq := { head := 8, tail := 9 }
    working := [acceptEntry 4 0, acceptEntry 4 0, acceptEntry 4 0, sendEntry 6 16384 1 2]
    tables := State.sent.tables.setToken 1 (some (.write 5 0 1 1)) }

theorem answered_reached : ∃ labels, Run (Step plainSubmitter) .sent labels .answered ∧
    .sent 5 [105] ∈ eventsOf labels := by
  have run : Run (Step plainSubmitter) .sent [] _ := .start
  have run := run.next (@Step.serve _ _ ⟨1, 1, 0⟩ _ ⟨9, 9, 24576⟩ _ _ _ _ _ rfl rfl
    ⟨by decide +kernel, by decide +kernel, reading_vacant⟩ rfl rfl)
  have run := into_wait run rfl (if_neg (by decide +kernel)) rfl
  have run := run.next (.consume rfl rfl)
  have run := out_of_wait_full run rfl (by decide +kernel) rfl rfl rfl
  have run := into_wait run rfl (if_neg (by decide +kernel)) rfl
  have run := run.next (.consume rfl rfl)
  have run := run.next (@Step.answer _ _ _ _ _ ⟨1, 1, 0⟩ _ _ _
    [acceptEntry 4 0, acceptEntry 4 0, acceptEntry 4 0, sendEntry 6 16384 1 2] rfl
    (decode_writeEntry 5 8193 1 1) rfl (.write 1 rfl (by decide) (by decide)) rfl rfl)
  have run := out_of_wait run rfl (by decide +kernel) rfl rfl
  have hread : State.sent.net.memory.read 8193 1 = [105] := by decide +kernel
  exact ⟨_, run, by simp [eventsOf, Label.event, Reply.apply, hread]⟩

/-- The connection is read once more, and closed. -/
theorem closed_reached : ∃ labels σ, Run (Step plainSubmitter) .answered labels σ ∧
    .closed 5 ∈ eventsOf labels := by
  have run : Run (Step plainSubmitter) .answered [] _ := .start
  have run := run.next (@Step.serve _ _ ⟨1, 1, 0⟩ _ ⟨9, 9, 24576⟩ _ _ _ _ _ rfl rfl
    ⟨by decide +kernel, by decide +kernel, reading_vacant⟩ rfl rfl)
  -- the poll
  have run := into_wait run rfl (if_neg (by decide +kernel)) rfl
  have run := out_of_wait run rfl (by decide +kernel) rfl rfl
  have run := into_wait run rfl (if_neg (by decide +kernel)) rfl
  have run := run.next (.consume rfl rfl)
  have run := run.next (@Step.answer _ _ _ _ _ ⟨1, 1, 0⟩ _ _ _
    [acceptEntry 4 0, acceptEntry 4 0, acceptEntry 4 0, sendEntry 6 16384 1 2] rfl
    (decode_pollEntry 5 1) rfl (.poll rfl (by decide)) rfl rfl)
  have run := out_of_wait run rfl (by decide +kernel) rfl rfl
  have run := run.next (@Step.serve _ _ ⟨1, 1, 0⟩ _ ⟨9, 9, 24576⟩ _ _ _ _ _ rfl rfl
    ⟨by decide +kernel, by decide +kernel, reading_vacant⟩ rfl rfl)
  -- the read of nothing
  have run := into_wait run rfl (if_neg (by decide +kernel)) rfl
  have run := out_of_wait run rfl (by decide +kernel) rfl rfl
  have run := into_wait run rfl (if_neg (by decide +kernel)) rfl
  have run := run.next (.consume rfl rfl)
  have run := run.next (@Step.answer _ _ _ _ _ ⟨1, 0, 0⟩ _ _ _
    [acceptEntry 4 0, acceptEntry 4 0, acceptEntry 4 0, sendEntry 6 16384 1 2] rfl
    (decode_readEntry 5 8192 1) rfl (.recv [] rfl (by decide) (by decide)) rfl rfl)
  have run := out_of_wait run rfl (by decide +kernel) rfl rfl
  have run := run.next (@Step.serve _ _ ⟨1, 0, 0⟩ _ ⟨9, 9, 24576⟩ _ _ _ _ _ rfl rfl
    ⟨by decide +kernel, by decide +kernel, reading_vacant⟩ rfl rfl)
  exact ⟨_, _, run, by simp [eventsOf, Label.event, Reply.event]⟩

/-! ## No panic, and an echo -/

/-- No arm panics: tokens, buffers and slices are there whenever one asks for them. -/
theorem no_arm_panics (hqueue : queue.tail = queue.head) (hring : ring.tail = ring.head)
    (run : Run (Step s) (State.start queue ring listener k₀ net) labels σ) (hpc : σ.pc = .serve)
    {cqe : Cqueue.Entry} {cq : Cqueue.CompletionQueue}
    (hnext : σ.cq.next σ.ring = some (cqe, cq)) (fresh : Fresh) :
    ∃ tables reply, σ.tables.serve cqe.userData cqe.res fresh = some (tables, reply) := by
  obtain ⟨hsound, sessions, -, h⟩ := agrees hqueue hring run
  apply h.runs
  obtain ⟨base, l, f, t, hcq⟩ := hsound.cq
  rw [hpc] at hcq
  have hunread := (unread_next hcq hnext).2
  rw [State.desk, State.jobs, hunread]
  simp

/-- Each arm once: an accepted connection, one that can be read, one whose message has been
received, and one that still has a byte to send from the middle of its buffer. -/
theorem no_arm_panics_each :
    (∃ tables reply, State.arrived.tables.serve 0 5 ⟨1, 0, 0⟩ = some (tables, reply)) ∧
      (∃ tables reply, State.readable.tables.serve 1 1 ⟨9, 0, 8192⟩ = some (tables, reply)) ∧
      (∃ tables reply, State.holding.tables.serve 2 1 ⟨9, 9, 24576⟩ = some (tables, reply)) ∧
      ∃ tables reply, State.sent.tables.serve 1 1 ⟨9, 9, 24576⟩ = some (tables, reply) := by
  obtain ⟨_, arrived⟩ := arrived_reached
  obtain ⟨_, crowded⟩ := crowded_reached
  obtain ⟨_, overrun, -⟩ := overrun_reached
  obtain ⟨_, readable⟩ := readable_reached
  obtain ⟨_, reading⟩ := reading_reached
  obtain ⟨_, sent, -⟩ := sent_reached
  have readable := ((crowded.trans overrun).next overrun_step).trans readable
  have holding := (readable.trans reading).trans holding_reached
  exact ⟨@no_arm_panics _ _ _ _ _ _ _ _ rfl rfl arrived rfl ⟨0, 5, 0⟩ _ rfl _,
    @no_arm_panics _ _ _ _ _ _ _ _ rfl rfl readable rfl ⟨1, 1, 0⟩ _ rfl _,
    @no_arm_panics _ _ _ _ _ _ _ _ rfl rfl holding rfl ⟨2, 1, 0⟩ _ rfl _,
    @no_arm_panics _ _ _ _ _ _ _ _ rfl rfl (holding.trans sent) rfl ⟨1, 1, 0⟩ _ rfl _⟩

/-- Every run is one of an echo: a connection is sent nothing but what comes next in the message
it sent last, message by message, and is closed after its end. It is a full echo exactly if the
writes of every answered message are whole. -/
theorem echoes (hqueue : queue.tail = queue.head) (hring : ring.tail = ring.head)
    (run : Run (Step s) (State.start queue ring listener k₀ net) labels σ) :
    ∃ sessions, Run (Sessions.Step serverAsks) .start (eventsOf labels) sessions ∧
      (Run (Sessions.Step fullAsks) .start (eventsOf labels) sessions ↔
        ∀ p ∈ sessions.answered, Whole p.1.length p.2) := by
  obtain ⟨-, sessions, hrun, -⟩ := agrees hqueue hring run
  exact ⟨sessions, hrun, Sessions.full_iff hrun⟩

/-- A message of two bytes comes back in two writes, and the connection is closed. -/
theorem echoes_closed :
    ∃ labels sessions σ, Run (Step plainSubmitter) .small labels σ ∧
      (.received 5 [104, 105] ∈ eventsOf labels ∧ .sent 5 [104] ∈ eventsOf labels ∧
        .sent 5 [105] ∈ eventsOf labels ∧ .closed 5 ∈ eventsOf labels) ∧
      Run (Sessions.Step serverAsks) .start (eventsOf labels) sessions ∧
      (Run (Sessions.Step fullAsks) .start (eventsOf labels) sessions ↔
        ∀ p ∈ sessions.answered, Whole p.1.length p.2) := by
  obtain ⟨before, reading⟩ := reading_run
  obtain ⟨labels, sent, hsent⟩ := sent_reached
  obtain ⟨more, answered, hrest⟩ := answered_reached
  obtain ⟨labels', σ, closed, hclosed⟩ := closed_reached
  have hreceived : .received 5 [104, 105] ∈ eventsOf holdingLabels := by
    simp [eventsOf, holdingLabels, Label.event]
  have run := (((reading.trans holding_reached).trans sent).trans answered).trans closed
  obtain ⟨sessions, hsessions⟩ := echoes rfl rfl run
  refine ⟨_, sessions, σ, run, ⟨?_, ?_, ?_, ?_⟩, hsessions⟩ <;>
    simp only [eventsOf, List.map_append, List.mem_append] at *
  · exact .inl (.inl (.inl (.inr hreceived)))
  · exact .inl (.inl (.inr hsent))
  · exact .inl (.inr hrest)
  · exact .inr hclosed

/-! ## Requests do not share memory -/

/-- The memory that a request reads or writes. -/
def areaOf : Op → Option (UInt64 × Nat)
  | .recv op => some (op.buf, op.len.toNat)
  | .send op => some (op.buf, op.len.toNat)
  | .write op => some (op.buf, op.len.toNat)
  | _ => none

/-- The requests in hand, wherever they wait. -/
def State.requests (σ : State) : List Squeue.Entry :=
  σ.backlog ++ pending σ.queue σ.sq ++ σ.working

/-- The memory of a request lies in the buffer of its token. -/
theorem Fits.area {v : View} {token : Token} {entry : Squeue.Entry} {op : Op} {a : UInt64} {n : Nat}
    (h : Fits listener v token (.request entry)) (hop : decode (.entry entry) = some op)
    (harea : areaOf op = some (a, n)) :
    ∃ b buf offset, token.buf = some b ∧ v.bufAlloc b = some buf ∧ a = buf + .ofNat offset ∧
      offset + n ≤ bufSize := by
  cases token with
  | accept =>
      have hentry : entry = acceptEntry listener entry.getUserData := h
      rw [hentry, decode_acceptEntry] at hop
      cases hop
      cases harea
  | poll fd =>
      rw [h.2, decode_pollEntry] at hop
      cases hop
      cases harea
  | read fd b =>
      obtain ⟨-, buf, hbuf, hentry⟩ := h
      rw [hentry, decode_readEntry] at hop
      cases hop
      cases harea
      exact ⟨b, buf, 0, rfl, hbuf, (UInt64.add_zero buf).symm, by
        rw [Nat.zero_add]
        exact toNat_ofNat_le _⟩
  | write fd b offset len =>
      obtain ⟨buf, message, writes, hanswers, -, hentry⟩ := h
      have hpos : 0 < message.length := List.length_pos_of_ne_nil hanswers.buffer.ne
      have hbound := (nextWrite_eq_some hanswers.next hpos).2.1
      have hlength := hanswers.buffer.length_le
      have hlen := toNat_ofNat_le len
      obtain ⟨rfl, hentry⟩ | hentry := hentry
      · rw [hentry, decode_sendEntry] at hop
        cases hop
        cases harea
        refine ⟨b, buf, 0, rfl, hanswers.buffer.alloc, (UInt64.add_zero buf).symm, ?_⟩
        simp only
        omega
      · rw [hentry, decode_writeEntry] at hop
        cases hop
        cases harea
        refine ⟨b, buf, offset, rfl, hanswers.buffer.alloc, rfl, ?_⟩
        simp only
        omega

/-- Areas inside two areas that share nothing share nothing. -/
theorem apart_of_inside {a a' : UInt64} {i i' n n' : Nat}
    (h : Memory.Apart a bufSize a' bufSize) (hi : i + n ≤ bufSize) (hi' : i' + n' ≤ bufSize) :
    Memory.Apart (a + .ofNat i) n (a' + .ofNat i') n' := by
  intro j hj j' hj'
  rw [UInt64.add_assoc, UInt64.add_assoc, ← UInt64.ofNat_add, ← UInt64.ofNat_add]
  exact h (i + j) (by omega) (i' + j') (by omega)

/-- No byte that one request reads or writes is one that the other does. -/
def Aloof (entry entry' : Squeue.Entry) : Prop :=
  ∀ op op' a n a' n', decode (.entry entry) = some op → decode (.entry entry') = some op' →
    areaOf op = some (a, n) → areaOf op' = some (a', n') → Memory.Apart a n a' n'

/-- Every request that reads or writes memory stays inside a buffer that is not in the pool, and
no two requests in hand share a byte. -/
theorem requests_apart (hqueue : queue.tail = queue.head) (hring : ring.tail = ring.head)
    (run : Run (Step s) (State.start queue ring listener k₀ net) labels σ) :
    (∀ entry ∈ σ.requests, ∀ op a n, decode (.entry entry) = some op → areaOf op = some (a, n) →
      ∃ b buf offset, σ.tables.bufAlloc b = some buf ∧ b ∉ σ.tables.bufpool ∧
        a = buf + .ofNat offset ∧ offset + n ≤ bufSize) ∧
    σ.requests.Pairwise Aloof := by
  obtain ⟨-, sessions, -, h⟩ := agrees hqueue hring run
  have hjobs : ((σ.requests.map Job.request : List Job) : Multiset Job) ≤ σ.jobs := by
    change requestsOf σ.requests ≤ σ.jobs
    simp only [State.requests, requestsOf_append, State.jobs]
    rw [Multiset.add_assoc _ (resultsOf _) (resultsOf _)]
    exact Multiset.le_add_right _ _
  have hmem {entry : Squeue.Entry} (hentry : entry ∈ σ.requests) : .request entry ∈ σ.jobs :=
    Multiset.mem_of_le hjobs (List.mem_map_of_mem hentry)
  constructor
  · intro entry hentry op a n hop harea
    obtain ⟨token, ht, hfits⟩ := h.work.live _ (hmem hentry)
    obtain ⟨b, buf, offset, hb, hbuf, ha, hle⟩ := hfits.area hop harea
    refine ⟨b, buf, offset, hbuf, fun hpool => ?_, ha, hle⟩
    exact h.bufs.free b hpool _ ((Tables.ofTokens_eq ht).trans hb)
  · refine ((List.pairwise_map.mp (h.work.pairwise hjobs)).imp_of_mem ?_)
    intro entry entry' hentry hentry' hkeys op op' a n a' n' hop hop' harea harea'
    obtain ⟨token, ht, hfits⟩ := h.work.live _ (hmem hentry)
    obtain ⟨token', ht', hfits'⟩ := h.work.live _ (hmem hentry')
    obtain ⟨b, buf, offset, hb, hbuf, rfl, hle⟩ := hfits.area hop harea
    obtain ⟨b', buf', offset', hb', hbuf', rfl, hle'⟩ := hfits'.area hop' harea'
    have hof : σ.tables.ofTokens Token.buf entry.getUserData = some b :=
      (Tables.ofTokens_eq ht).trans hb
    have hof' : σ.tables.ofTokens Token.buf entry'.getUserData = some b' :=
      (Tables.ofTokens_eq ht').trans hb'
    have hne : entry.getUserData ≠ entry'.getUserData := by
      obtain hshared | hne := hkeys
      · -- the token of the accept requests has no buffer
        have haccept := (h.accept _).mpr hshared
        rw [show σ.desk.tables.tokenAlloc _ = some token from ht] at haccept
        cases haccept
        cases hb
      · exact hne
    refine apart_of_inside (h.bufs.apart b b' buf buf' hbuf hbuf' ?_) hle hle'
    rintro rfl
    exact hne (h.bufs.once _ _ _ hof hof')

theorem requests_apart_reading : State.reading.requests.Pairwise Aloof := by
  obtain ⟨labels, run⟩ := reading_run
  exact (requests_apart rfl rfl run).2

end IoUring.TcpEcho
