import IoUring.BufRing.Protocol

/-!
# What the handles of a run show

A ring that the builder returns starts with the invariant, so every run keeps
it. From that: the kernel picks the buffers in the order of their pushes, no
assertion of the application fails, a handle shows the same bytes until it is
dropped, and a buffer is lost only with a completion that carries no data.
-/

namespace IoUring.BufRing

open Foundation

variable {host : Host} {b : Builder} {r : InnerBufRing} {heap : UInt64 → List UInt8}
  {events : List Event} {s s' : State} {e : Event}

theorem Outcome.of_ok {k : Nat} {bgid bufCnt flags : UInt16} {bufLen : UInt64}
    (h : Outcome host k bgid bufCnt bufLen flags (some (.ok r))) :
    r.WellFormed ∧ r.localTail = 0 ∧ r.sharedTail = 0 := by
  cases hmmap : host.mmap (16 * 2 ^ k) with
  | error errno => cases h.unmapped errno hmmap
  | ok =>
      cases hfork : host.dontfork (16 * 2 ^ k) with
      | error errno => cases h.forked hmmap errno hfork
      | ok =>
          by_cases hmax : isizeMax < bufLen
          · cases h.unallocated hmmap hfork (.inl hmax)
          · cases hbuffers : host.buffers bufCnt bufLen with
            | none => cases h.unallocated hmmap hfork (.inr hbuffers)
            | some addrs =>
                obtain ⟨r', heq, wf, -, -, -, -, -, -, hlocal, hshared⟩ :=
                  h.built hmmap hfork (UInt64.not_lt.mp hmax) addrs hbuffers
                obtain rfl := Except.ok.inj (Option.some.inj heq)
                exact ⟨wf, hlocal, hshared⟩

theorem fresh_of_build (h : b.build host = some (.ok r)) :
    r.WellFormed ∧ r.localTail = 0 ∧ r.sharedTail = 0 := by
  obtain ⟨hlarge, hbad, hgood⟩ := build_spec host b
  rw [h] at hlarge hbad hgood
  by_cases hle : Nat.max b.ringEntries.toNat b.bufCnt.toNat ≤ 32768
  · by_cases hzero : Nat.max b.ringEntries.toNat b.bufCnt.toNat = 0 ∨ b.bufLen = 0
    · cases hbad hle hzero
    · obtain ⟨hpos, hlen⟩ := not_or.mp hzero
      obtain ⟨k, -, -, -, outcome⟩ := hgood (Nat.pos_of_ne_zero hpos) hle hlen
      exact outcome.of_ok
  · cases hlarge (Nat.lt_of_not_le hle)

/-- With a fresh ring nothing is pushed and every buffer is still to be registered. -/
theorem Inv.start (h : b.build host = some (.ok r)) : Inv .start (start r heap) := by
  obtain ⟨wf, hlocal, hshared⟩ := fresh_of_build h
  exact {
    ring :=
      { wf := wf
        local_eq := hlocal
        shared_eq := hshared
        head_eq := rfl
        taken_prefix := List.nil_prefix
        taken_le := Nat.le_refl _
        published_le := Nat.le_refl _
        room := Nat.zero_le _
        holds := fun n hn => absurd hn (Nat.not_lt_zero n) }
    once := by
      change (↑([] : List UInt16) + ↑([] : List UInt16) + ↑([] : List UInt16) +
        ↑([] : List UInt16) + ↑(r.bids.drop 0) : Multiset UInt16) = ↑r.bids
      rw [List.drop_zero, Multiset.coe_nil, zero_add, zero_add, zero_add, zero_add]
    posted := fun _ hcqe => absurd hcqe List.not_mem_nil
    live := fun _ hbuf => absurd hbuf List.not_mem_nil
    published_eq := nofun }

theorem Inv.run (h : b.build host = some (.ok r)) (run : Run Step (BufRing.start r heap) events s) :
    Inv (.of events) s :=
  run.invariant (fun _ _ _ _ inv hstep => inv.step hstep) (.start h)

/-! ## The ring's settings stay -/

/-- The same ring but for the local tail and the entries. -/
def SameRing (r r' : InnerBufRing) : Prop :=
  ∃ localTail ringStart, r' = { r with localTail, ringStart }

theorem SameRing.trans {r r' r'' : InnerBufRing} (h : SameRing r r') (h' : SameRing r' r'') :
    SameRing r r'' := by
  obtain ⟨localTail, ringStart, rfl⟩ := h
  obtain ⟨localTail', ringStart', rfl⟩ := h'
  exact ⟨localTail', ringStart', rfl⟩

theorem SameRing.push {r r' : InnerBufRing} {bid : UInt16} (h : r.bufRingPush bid = some r') :
    SameRing r r' := by
  rw [InnerBufRing.bufRingPush, Option.ite_none_right_eq_some] at h
  obtain ⟨-, hpush⟩ := h
  obtain ⟨addr, -, hsome⟩ := Option.bind_eq_some_iff.mp hpush
  obtain rfl := Option.some.inj hsome
  exact ⟨_, _, rfl⟩

theorem Step.sameRing (h : Step s e s') : SameRing s.ring s'.ring := by
  cases h with
  | registerPush _ hpush => exact .push hpush
  | dropPush _ _ hpush => exact .push hpush
  | registerSync | dropSync => exact ⟨_, _, rfl⟩
  | _ => exact ⟨_, _, rfl⟩

theorem Step.sameRing_run (run : Run Step s events s') : SameRing s.ring s'.ring := by
  induction run with
  | start => exact ⟨_, _, rfl⟩
  | next _ h ih => exact ih.trans h.sameRing

/-! ## A small ring -/

/-- A host with its buffers on pages of their own. -/
def plainHost : Host where
  mmap _ := .ok ()
  dontfork _ := .ok ()
  buffers bufCnt _ := some <| by
    refine ⟨(List.range bufCnt.toNat).map fun i => .ofNat (4096 * (i + 1)), by simp, ?_⟩
    apply List.Nodup.map_on _ List.nodup_range
    intro i hi j hj heq
    have hlt := bufCnt.toNat_lt
    have hi' := List.mem_range.mp hi
    have hj' := List.mem_range.mp hj
    have hnat := congrArg UInt64.toNat heq
    rw [UInt64.toNat_ofNat_of_lt' (show 4096 * (i + 1) < 2 ^ 64 by omega),
      UInt64.toNat_ofNat_of_lt' (show 4096 * (j + 1) < 2 ^ 64 by omega)] at hnat
    omega

def smallBuilder : Builder :=
  ((((Builder.new 1).registerFlags 0).setRingEntries 2).setBufCnt 2).setBufLen 4

def smallRing : InnerBufRing where
  bgid := 1
  ringEntriesMask := 1
  bufCnt := 2
  bufLen := 4
  ringStart := fun _ => ⟨0, 0, 0, 0⟩
  bufList := [4096, 8192]
  localTail := 0
  flags := 0

theorem small_build : smallBuilder.build plainHost = some (.ok smallRing) := rfl

/-- The ring with a buffer pushed. -/
def InnerBufRing.pushed (r : InnerBufRing) (bid : UInt16) : InnerBufRing :=
  (r.bufRingPush bid).getD r

def smallFull : InnerBufRing := ((smallRing.pushed 0).pushed 1).bufRingSync

def smallHeap : UInt64 → List UInt8 := fill (fun _ => []) 4096 [7]

/-- Registered, with the first buffer under a handle. -/
def smallReaped : State := ⟨smallFull, 1, smallHeap, [], [⟨1, 0⟩], .idle⟩

def smallEvents : List Event :=
  [.pushed 0, .pushed 1, .published, .selected 0 [7], .reaped [⟨1, 0⟩]]

theorem small_registers : Run Step (start smallRing fun _ => []) [.pushed 0, .pushed 1, .published]
    ⟨smallFull, 0, fun _ => [], [], [], .idle⟩ := by
  have first : Step (start smallRing fun _ => []) (.pushed 0)
      ⟨smallRing.pushed 0, 0, fun _ => [], [], [], .registering 1⟩ :=
    .registerPush (by decide) rfl
  have second : Step ⟨smallRing.pushed 0, 0, fun _ => [], [], [], .registering 1⟩ (.pushed 1)
      ⟨(smallRing.pushed 0).pushed 1, 0, fun _ => [], [], [], .registering 2⟩ :=
    .registerPush (by decide) rfl
  have published : Step ⟨(smallRing.pushed 0).pushed 1, 0, fun _ => [], [], [], .registering 2⟩
      .published ⟨smallFull, 0, fun _ => [], [], [], .idle⟩ := .registerSync
  exact ((Run.start.next first).next second).next published

theorem small_reaps : Run Step (start smallRing fun _ => []) smallEvents smallReaped := by
  have picked : Step ⟨smallFull, 0, fun _ => [], [], [], .idle⟩ (.selected 0 [7])
      ⟨smallFull, 1, smallHeap, [⟨0, 1, Cqueue.bufferFlags 0 0⟩], [], .idle⟩ :=
    .select [7] 0 0 (by decide) (by decide) (by decide)
  have taken : Step ⟨smallFull, 1, smallHeap, [⟨0, 1, Cqueue.bufferFlags 0 0⟩], [], .idle⟩
      (.reaped [⟨1, 0⟩]) smallReaped := .reap (by decide) rfl
  exact (small_registers.next picked).next taken

/-- The other buffer is picked without data, and lost. -/
theorem small_loses : Run Step smallReaped [.selected 1 [], .lost 1]
    ⟨smallFull, 2, fill smallHeap 8192 [], [], [⟨1, 0⟩], .idle⟩ := by
  have picked : Step smallReaped (.selected 1 [])
      ⟨smallFull, 2, fill smallHeap 8192 [], [⟨0, 0, Cqueue.bufferFlags 1 0⟩], [⟨1, 0⟩], .idle⟩ :=
    .select [] 0 0 (by decide) (by decide) (by decide)
  have lost : Step ⟨smallFull, 2, fill smallHeap 8192 [], [⟨0, 0, Cqueue.bufferFlags 1 0⟩],
      [⟨1, 0⟩], .idle⟩ (.lost 1) ⟨smallFull, 2, fill smallHeap 8192 [], [], [⟨1, 0⟩], .idle⟩ :=
    .reapNothing (by decide) rfl rfl
  exact (Run.start.next picked).next lost

/-! ## Every buffer has one owner and the kernel picks in order -/

/-- Over every run of every ring that was built: the kernel picks the published buffers in the
order in which they were pushed, finds none exactly when it has picked them all, and otherwise
finds an entry with the id, the address and the length of the next one; and each buffer of the
ring is in one place. -/
theorem picked_in_order (hbuild : b.build host = some (.ok r))
    (run : Run Step (start r heap) events s) :
    let l := Ledger.of events
    l.taken <+: l.pushed.take l.published ∧
      (s.head = s.ring.sharedTail ↔ l.taken = l.pushed.take l.published) ∧
      (s.head ≠ s.ring.sharedTail → ∃ hlt : l.taken.length < l.pushed.length,
        let re := s.ring.entryAt s.head
        re.bid = l.pushed[l.taken.length] ∧ r.stablePtr re.bid = some re.addr ∧
          re.len = r.bufLen.toUInt32) ∧
      owned l s = ↑r.bids ∧ r.bids.Nodup := by
  intro l
  have inv := Inv.run hbuild run
  obtain ⟨localTail, ringStart, hring⟩ := Step.sameRing_run run
  have hlength : (l.pushed.take l.published).length = l.published := by
    rw [List.length_take]
    exact Nat.min_eq_left inv.ring.published_le
  have htaken : l.taken <+: l.pushed.take l.published := by
    apply List.prefix_of_prefix_length_le inv.ring.taken_prefix (List.take_prefix _ _)
    rw [hlength]
    exact inv.ring.taken_le
  refine ⟨htaken, ?_, ?_, ?_, (fresh_of_build hbuild).1.nodup_bids⟩
  · rw [inv.ring.ready_iff]
    constructor
    · intro hall
      exact htaken.eq_of_length (hall.trans hlength.symm)
    · intro hall
      exact (congrArg List.length hall).trans hlength
  · intro hready
    obtain ⟨hlt, hview⟩ := inv.ring.entry_eq hready
    have hbid : (s.ring.entryAt s.head).bid = l.pushed[l.taken.length] :=
      congrArg (fun v => v.2.2) hview
    have haddr : s.ring.stablePtr l.pushed[l.taken.length] = some (s.ring.entryAt s.head).addr :=
      (congrArg (fun v => v.1) hview).symm
    have hlen : (s.ring.entryAt s.head).len = s.ring.bufLen.toUInt32 :=
      congrArg (fun v => v.2.1) hview
    refine ⟨hlt, hbid, ?_, ?_⟩
    · rw [hbid, ← haddr, hring]
      rfl
    · rw [hlen, hring]
      rfl
  · rw [inv.once, hring]
    rfl

/-- One buffer is under a handle, and the other is what the kernel finds at its head. -/
theorem picked_in_order_small :
    owned (.of smallEvents) smallReaped = ↑smallRing.bids ∧
      (smallFull.entryAt 1).bid = 1 ∧ smallRing.stablePtr 1 = some (smallFull.entryAt 1).addr := by
  obtain ⟨-, -, hready, honce, -⟩ := picked_in_order small_build small_reaps
  obtain ⟨hlt, hbid, haddr, -⟩ := hready (by decide)
  rw [hbid] at haddr
  exact ⟨honce, hbid, haddr⟩

/-! ## No assertion fails -/

/-- Over every run of completions that name one buffer each: each buffer can be pushed by the loop
of `register` and by the drop of each handle, and a handle can be made from each completion that
is not a failure. -/
theorem no_panic (hbuild : b.build host = some (.ok r)) (run : Run Step (start r heap) events s) :
    (∀ bid < r.bufCnt, (s.ring.bufRingPush bid).isSome) ∧
      (∀ buf ∈ s.live, (s.ring.bufRingPush buf.bid).isSome) ∧
      ∀ cqe ∈ s.posted, 0 ≤ cqe.res →
        (s.ring.getBuf cqe.res.toUInt32 cqe.flags).isSome ∧
          (s.ring.getBufs cqe.res.toUInt32 cqe.flags).isSome := by
  have inv := Inv.run hbuild run
  obtain ⟨localTail, ringStart, hring⟩ := Step.sameRing_run run
  have hpush (bid : UInt16) (hbid : bid < s.ring.bufCnt) : (s.ring.bufRingPush bid).isSome := by
    obtain ⟨_, _, _, _, hsome⟩ := RingInv.push_eq inv.wf hbid
    exact Option.isSome_iff_exists.mpr ⟨_, hsome⟩
  refine ⟨?_, ?_, ?_⟩
  · intro bid hbid
    apply hpush
    rw [hring]
    exact hbid
  · intro buf hbuf
    apply hpush
    apply inv.lt_of_mem
    simp only [owned, Multiset.mem_add, Multiset.mem_coe]
    exact .inl (.inl (.inr (List.mem_map_of_mem hbuf)))
  · intro cqe hcqe hres
    cases inv.posted cqe hcqe with
    | failure hneg _ => exact absurd hres (Int32.not_le.mpr hneg)
    | @buffer bid _ hflags hlen filled =>
        obtain ⟨-, -, -, hcapacity⟩ := filled
        have hle : cqe.res.toUInt32.toUInt64 ≤ s.ring.bufLen := by
          rw [UInt64.le_iff_toNat_le, UInt32.toNat_toUInt64, hlen]
          exact hcapacity
        constructor
        · rw [InnerBufRing.getBuf, hflags, Option.bind_eq_bind, Option.bind_some, if_pos hle,
            GBuf.new, if_pos hle]
          rfl
        · obtain ⟨bufs, hbufs, -⟩ :=
            @getBufs_spec s.ring inv.wf.bufLen_pos cqe.res.toUInt32 _ bid hflags
          exact Option.isSome_iff_exists.mpr ⟨bufs, hbufs⟩

theorem no_panic_small :
    (smallFull.bufRingPush 1).isSome ∧ (smallFull.bufRingPush 0).isSome := by
  obtain ⟨hall, hlive, -⟩ := no_panic small_build small_reaps
  exact ⟨hall 1 (by decide), hlive ⟨1, 0⟩ List.mem_cons_self⟩

/-! ## What a handle shows stays -/

/-- A handle that is there in both states shows the same data by the ledger. -/
theorem Inv.live_step {l : Ledger} (inv : Inv l s) (h : Step s e s') {buf : GBuf}
    (hlive : buf ∈ s.live) (hkept : e ≠ .pushed buf.bid) :
    buf ∈ s'.live ∧ (l.record e).data buf.bid = l.data buf.bid := by
  cases h with
  | select data userData low hready _ _ =>
      refine ⟨hlive, Function.update_of_ne ?_ _ _⟩
      apply inv.ne_of_waiting
      · rw [inv.ring.waiting_select hready data]
        exact List.mem_cons_self
      · exact List.mem_append_right _ (List.mem_map_of_mem hlive)
  | reap | reapAll => exact ⟨List.mem_append_left _ hlive, rfl⟩
  | dropPush before dropped _ =>
      refine ⟨?_, rfl⟩
      have hne : buf ≠ dropped := by
        rintro rfl
        exact hkept rfl
      rcases List.mem_append.mp hlive with hbefore | hafter
      · exact List.mem_append_left _ hbefore
      · exact List.mem_append_right _ (List.mem_of_ne_of_mem hne hafter)
  | _ => exact ⟨hlive, rfl⟩

theorem Inv.live_run {l : Ledger} {m : State} (inv : Inv l m) (run : Run Step m events s)
    {buf : GBuf} (hlive : buf ∈ m.live) (hkept : .pushed buf.bid ∉ events) :
    Inv (ledgerAfter Ledger.record l events) s ∧ buf ∈ s.live ∧
      (ledgerAfter Ledger.record l events).data buf.bid = l.data buf.bid := by
  induction run with
  | start => exact ⟨inv, hlive, rfl⟩
  | next _ h ih =>
      obtain ⟨hkept', hlast⟩ := not_or.mp (mt List.mem_append.mpr hkept)
      obtain ⟨inv', hlive', hdata'⟩ := ih hkept'
      obtain ⟨hlive'', hdata''⟩ :=
        inv'.live_step h hlive' fun heq => hlast (List.mem_singleton.mpr heq.symm)
      rw [ledgerAfter_snoc]
      exact ⟨inv'.step h, hlive'', hdata''.trans hdata'⟩

theorem Inv.asSlice_eq {l : Ledger} (inv : Inv l s) {buf : GBuf} (hlive : buf ∈ s.live) :
    buf.asSlice s.ring s.heap = some (l.data buf.bid) := by
  obtain ⟨⟨addr, haddr, hdata, -⟩, hlen⟩ := inv.live buf hlive
  rw [GBuf.asSlice, haddr, Option.map_some, hlen, hdata]

/-- A handle shows the data that the kernel put into its buffer with its latest pick, and as long
as it is not dropped it shows the same data, whatever else the kernel and the application do. -/
theorem handle_shows_data (hbuild : b.build host = some (.ok r)) {before after : List Event}
    {m : State} (run : Run Step (start r heap) before m) (run' : Run Step m after s) {buf : GBuf}
    (hlive : buf ∈ m.live) (hkept : .pushed buf.bid ∉ after) :
    buf ∈ s.live ∧ buf.asSlice m.ring m.heap = some ((Ledger.of before).data buf.bid) ∧
      buf.asSlice s.ring s.heap = buf.asSlice m.ring m.heap := by
  have inv := Inv.run hbuild run
  obtain ⟨inv', hlive', hdata⟩ := inv.live_run run' hlive hkept
  refine ⟨hlive', inv.asSlice_eq hlive, ?_⟩
  rw [inv.asSlice_eq hlive, inv'.asSlice_eq hlive', hdata]

/-- The handle shows its byte also after the kernel used the other buffer. -/
theorem handle_shows_data_small :
    (GBuf.mk 1 0).asSlice smallFull (fill smallHeap 8192 []) =
      some ((Ledger.of smallEvents).data 0) := by
  have hlive : ⟨1, 0⟩ ∈ smallReaped.live := List.mem_cons_self
  obtain ⟨-, hbefore, hafter⟩ := handle_shows_data small_build small_reaps small_loses hlive
    (by simp)
  exact hafter.trans hbefore

/-! ## Lost buffers -/

/-- Where each completion's data and each lost buffer come from. -/
structure Traced (events : List Event) (s : State) : Prop where
  posted : ∀ cqe ∈ s.posted, ∀ bid, Cqueue.bufferSelect cqe.flags = some bid →
    .selected bid ((Ledger.of events).data bid) ∈ events
  lost : ∀ bid ∈ (Ledger.of events).lost, .selected bid [] ∈ events

theorem Traced.step (inv : Inv (.of events) s) (h : Traced events s) (hstep : Step s e s') :
    Traced (events ++ [e]) s' := by
  have hof : Ledger.of (events ++ [e]) = (Ledger.of events).record e := ledgerAfter_snoc _ _ _ _
  have hposted {cqe : Cqueue.Entry} (hcqe : cqe ∈ s.posted) {bid : UInt16}
      (hbid : Cqueue.bufferSelect cqe.flags = some bid) :
      .selected bid ((Ledger.of events).data bid) ∈ events ++ [e] :=
    List.mem_append_left _ (h.posted cqe hcqe bid hbid)
  have hlost {bid : UInt16} (hbid : bid ∈ (Ledger.of events).lost) :
      .selected bid [] ∈ events ++ [e] := List.mem_append_left _ (h.lost bid hbid)
  cases hstep with
  | @select r head heap posted live pc data userData low hready _ _ =>
      constructor
      · intro cqe hcqe bid hbid
        rw [hof, Ledger.record_selected_data]
        rcases List.mem_append.mp hcqe with hold | hlast
        · have hne : bid ≠ (r.entryAt head).bid := by
            apply inv.ne_of_waiting
            · rw [inv.ring.waiting_select hready data]
              exact List.mem_cons_self
            · exact List.mem_append_left _ (mem_named hold hbid)
          rw [Function.update_of_ne hne]
          exact hposted hold hbid
        · obtain rfl := List.mem_singleton.mp hlast
          obtain rfl := Option.some.inj ((Cqueue.bufferSelect_bufferFlags _ low).symm.trans hbid)
          rw [Function.update_self]
          exact List.mem_append_right _ List.mem_cons_self
      · intro bid hbid
        rw [hof] at hbid
        exact hlost hbid
  | @exhaust r head heap posted live pc userData res hempty hres =>
      constructor
      · intro cqe hcqe bid hbid
        rw [hof]
        rcases List.mem_append.mp hcqe with hold | hlast
        · exact hposted hold hbid
        · obtain rfl := List.mem_singleton.mp hlast
          exact absurd ((rfl : Cqueue.bufferSelect 0 = none).symm.trans hbid) nofun
      · intro bid hbid
        rw [hof] at hbid
        exact hlost hbid
  | @reapNothing r head heap cqe posted live bid hres hbufs hbid =>
      constructor
      · intro cqe' hcqe' bid' hbid'
        rw [hof]
        exact hposted (List.mem_cons_of_mem _ hcqe') hbid'
      · intro bid' hbid'
        rw [hof] at hbid'
        rcases List.mem_append.mp hbid' with hold | hlast
        · exact hlost hold
        · obtain rfl := List.mem_singleton.mp hlast
          obtain ⟨bid'', hflags, hlen, -, -, -, hcapacity⟩ := inv.reports hres
          obtain rfl := Option.some.inj (hbid.symm.trans hflags)
          rcases Inv.getBufs_eq inv.wf hflags (hlen.trans_le hcapacity) hbufs with
            ⟨hzero, -⟩ | ⟨-, _, hcons, -, -⟩
          · have hnil : (Ledger.of events).data bid' = [] :=
              List.length_eq_zero_iff.mp (hlen.symm.trans hzero)
            have hselected := hposted List.mem_cons_self hbid
            rwa [hnil] at hselected
          · exact absurd hcons nofun
  | reap | reapAll | fail =>
      constructor
      · intro cqe hcqe bid hbid
        rw [hof]
        exact hposted (List.mem_cons_of_mem _ hcqe) hbid
      · intro bid hbid
        rw [hof] at hbid
        exact hlost hbid
  | registerPush | registerSync | dropPush | dropSync =>
      constructor
      · intro cqe hcqe bid hbid
        rw [hof]
        exact hposted hcqe hbid
      · intro bid hbid
        rw [hof] at hbid
        exact hlost hbid

theorem Traced.run (hbuild : b.build host = some (.ok r)) (run : Run Step (start r heap) events s) :
    Traced events s := by
  induction run with
  | start => exact ⟨nofun, nofun⟩
  | next run h ih => exact ih.step (Inv.run hbuild run) h

/-- A lost buffer stays lost, and is neither pushed nor picked again. -/
theorem Inv.lost_step {l : Ledger} (inv : Inv l s) (h : Step s e s') {bid : UInt16}
    (hlost : bid ∈ l.lost) :
    bid ∈ (l.record e).lost ∧ e ≠ .pushed bid ∧ ∀ data, e ≠ .selected bid data := by
  have hone := inv.count_le bid
  have hlostCount := List.one_le_count_iff.mpr hlost
  simp only [owned, Multiset.count_add, Multiset.coe_count] at hone
  have helse {owner : List UInt16} (howner : owner.count bid + l.lost.count bid ≤ 1) :
      bid ∉ owner := by
    intro hmem
    have hcount := List.one_le_count_iff.mpr hmem
    omega
  have hwaiting : bid ∉ l.waiting := helse (by omega)
  have hlive : bid ∉ s.live.map GBuf.bid := helse (by omega)
  have hunreg : bid ∉ s.pc.unregistered s.ring := helse (by omega)
  clear hone hlostCount helse
  cases h with
  | registerPush hnext _ =>
      refine ⟨hlost, ?_, by simp⟩
      rintro heq
      apply hunreg
      rw [Event.pushed.inj heq.symm, unregistered_eq_cons hnext]
      exact List.mem_cons_self
  | select data _ _ hready _ _ =>
      refine ⟨hlost, by simp, ?_⟩
      rintro data' heq
      apply hwaiting
      rw [inv.ring.waiting_select hready data, (Event.selected.inj heq).1]
      exact List.mem_cons_self
  | dropPush before buf _ =>
      refine ⟨hlost, ?_, by simp⟩
      rintro heq
      apply hlive
      rw [Event.pushed.inj heq.symm]
      exact List.mem_map_of_mem (by simp)
  | reapNothing => exact ⟨List.mem_append_left _ hlost, by simp, by simp⟩
  | _ => exact ⟨hlost, by simp, by simp⟩

theorem Inv.lost_run {l : Ledger} {m : State} (inv : Inv l m) (run : Run Step m events s)
    {bid : UInt16} (hlost : bid ∈ l.lost) :
    Inv (ledgerAfter Ledger.record l events) s ∧
      bid ∈ (ledgerAfter Ledger.record l events).lost ∧ .pushed bid ∉ events ∧
      ∀ data, .selected bid data ∉ events := by
  induction run with
  | start => exact ⟨inv, hlost, List.not_mem_nil, fun _ => List.not_mem_nil⟩
  | next _ h ih =>
      obtain ⟨inv', hlost', hpushed, hselected⟩ := ih
      obtain ⟨hlost'', hpush, hselect⟩ := inv'.lost_step h hlost'
      rw [ledgerAfter_snoc]
      refine ⟨inv'.step h, hlost'', ?_, ?_⟩
      · intro hmem
        rcases List.mem_append.mp hmem with hold | hlast
        · exact hpushed hold
        · exact hpush (List.mem_singleton.mp hlast).symm
      · intro data hmem
        rcases List.mem_append.mp hmem with hold | hlast
        · exact hselected data hold
        · exact hselect data (List.mem_singleton.mp hlast).symm

/-- A buffer is lost only if the kernel picked it for a completion without data; it is then out of
the ring for good, neither pushed nor picked again. -/
theorem lost_without_data (hbuild : b.build host = some (.ok r)) {before after : List Event}
    {m : State} (run : Run Step (start r heap) before m) (run' : Run Step m after s) :
    ∀ bid ∈ (Ledger.of before).lost, .selected bid [] ∈ before ∧ .pushed bid ∉ after ∧
      ∀ data, .selected bid data ∉ after := by
  intro bid hbid
  obtain ⟨-, -, hpushed, hselected⟩ := (Inv.run hbuild run).lost_run run' hbid
  exact ⟨(Traced.run hbuild run).lost bid hbid, hpushed, hselected⟩

/-- The handle of the other buffer is dropped; the lost one does not come back. -/
theorem lost_without_data_small :
    ∃ s, Run Step ⟨smallFull, 2, fill smallHeap 8192 [], [], [⟨1, 0⟩], .idle⟩
        [.pushed 0, .published] s ∧
      .selected 1 [] ∈ smallEvents ++ [.selected 1 [], .lost 1] ∧
      .pushed 1 ∉ [Event.pushed 0, .published] := by
  have push : Step ⟨smallFull, 2, fill smallHeap 8192 [], [], [⟨1, 0⟩], .idle⟩ (.pushed 0)
      ⟨smallFull.pushed 0, 2, fill smallHeap 8192 [], [], [], .dropping⟩ := .dropPush [] ⟨1, 0⟩ rfl
  have sync : Step ⟨smallFull.pushed 0, 2, fill smallHeap 8192 [], [], [], .dropping⟩ .published
      ⟨(smallFull.pushed 0).bufRingSync, 2, fill smallHeap 8192 [], [], [], .idle⟩ := .dropSync
  have run := (Run.start.next push).next sync
  obtain ⟨hselected, hpushed, -⟩ :=
    lost_without_data small_build (small_reaps.trans small_loses) run 1 List.mem_cons_self
  exact ⟨_, run, hselected, hpushed⟩

end IoUring.BufRing
