import IoUring.Submit.RegisteredRing

/-!
# Every system call is for the submitter's own ring

A submitter that holds an index passes it together with the mark that makes the
kernel look it up; one that holds none passes the descriptor without the mark.
The index was given for this ring's descriptor, and nobody else frees it.
-/

namespace IoUring.Submit

open Sys (IoringRegisterOp)
open Foundation (Held Run ledgerAfter)

namespace Submitter

variable {s : Submitter}

/-- The submitter of a ring that holds this index, or none. -/
def holding (fd : Int32) (params : Parameters) : Option UInt32 → Submitter
  | some index => { fd, params, enterRingFd := index.toInt32 }
  | none => { fd, params }

theorem toInt32_nonneg {index : UInt32} (hlt : index.toNat < 2 ^ 31) : index.toInt32 ≥ 0 := by
  rw [ge_iff_le, Int32.le_iff_toInt_le]
  have htoInt : index.toInt32.toInt = index.toNat := by
    change index.toBitVec.toInt = index.toBitVec.toNat
    rw [BitVec.toInt_eq_toNat_of_lt]
    change 2 * index.toNat < 2 ^ 32
    omega
  rw [htoInt]
  exact Int.natCast_nonneg _

theorem enter_of_nonneg (h : s.enterRingFd ≥ 0) (toSubmit minComplete flag : UInt32)
    (arg size : UInt64) :
    s.enter toSubmit minComplete flag arg size =
      ⟨s.enterRingFd, toSubmit, minComplete, flag ||| Sys.ioringEnterRegisteredRing, arg,
        size⟩ := by
  simp only [enter, if_pos h]

theorem enter_of_neg (h : ¬ s.enterRingFd ≥ 0) (toSubmit minComplete flag : UInt32)
    (arg size : UInt64) :
    s.enter toSubmit minComplete flag arg size =
      ⟨s.fd, toSubmit, minComplete, flag, arg, size⟩ := by
  simp only [enter, if_neg h]

theorem registerRing_of_nonneg (h : s.enterRingFd ≥ 0) :
    s.registerRing =
      if s.params.isFeatureRegRegRing then .registeredIndex s.enterRingFd else .rawFd s.fd := by
  simp only [registerRing, h, decide_true, Bool.true_and]

theorem registerRing_of_neg (h : ¬ s.enterRingFd ≥ 0) : s.registerRing = .rawFd s.fd := by
  simp only [registerRing, h, decide_false, Bool.false_and, Bool.false_eq_true, if_false]

end Submitter

/-- The flags that a method of the submitter hands to `enter`. -/
def Api.flags (s : Submitter) : Api → UInt32
  | .enter _ _ flag _ _ _ => flag
  | .squeueWait => Sys.ioringEnterSqWait
  | .submit req _ f1 f2 => s.enterFlags req f1 f2
  | .registerRingFd | .unregisterRingFd | .register _ => 0

/-- The opcode of a registration method, before it is marked for an index. -/
def Api.opcode : Api → Option IoringRegisterOp
  | .registerRingFd => some .registerRingFds
  | .unregisterRingFd => some .unregisterRingFds
  | .register req => some req.opcode
  | .enter _ _ _ _ _ _ | .squeueWait | .submit _ _ _ _ => none

/-- The methods that clone a buffer table. -/
def Api.clones : Api → Bool
  | .register req => req.clones
  | _ => false

theorem enterFlags_free (s : Submitter) (req : Request) (f1 f2 : UInt32) :
    s.enterFlags req f1 f2 &&& Sys.ioringEnterRegisteredRing = 0 := by
  obtain ⟨-, -, -, hring, -⟩ :=
    Submitter.flagWord_bits req.hasArgs (s.getsEvents req.want f1) (s.wakes f2) false
  rw [s.enterFlags_eq]
  exact Decidable.not_not.mp (mt hring.mp nofun)

theorem Api.flags_free {s : Submitter} {api : Api} :
    api.flags s &&& Sys.ioringEnterRegisteredRing = 0 := by
  cases api with
  | enter _ _ _ _ _ flag_free => exact flag_free
  | submit req len f1 f2 => exact enterFlags_free s req f1 f2
  | squeueWait =>
      exact (by decide : Sys.ioringEnterSqWait &&& Sys.ioringEnterRegisteredRing = 0)
  | registerRingFd | unregisterRingFd | register => exact UInt32.zero_and

/-- Every call of `io_uring_enter` is made by `enter` on the method's flags. -/
theorem of_method_enter {s : Submitter} {api : Api} {call : EnterCall}
    (h : s.method api = .enter call) :
    ∃ toSubmit minComplete arg size,
      call = s.enter toSubmit minComplete (api.flags s) arg size := by
  cases api with
  | registerRingFd =>
      simp only [Submitter.method, Submitter.registerRingFd] at h
      split at h <;> cases h
  | unregisterRingFd =>
      simp only [Submitter.method, Submitter.unregisterRingFd] at h
      split at h <;> cases h
  | enter toSubmit minComplete flag arg size flag_free =>
      exact ⟨toSubmit, minComplete, arg, size, (Method.enter.inj h).symm⟩
  | squeueWait => exact ⟨_, _, _, _, (Method.enter.inj h).symm⟩
  | submit req len f1 f2 =>
      simp only [Submitter.method, Submitter.finish_eq] at h
      split at h
      · cases h
      · rename_i hcall
        split at hcall
        · cases hcall
        · cases hcall
          exact ⟨_, _, _, _, (Method.enter.inj h).symm⟩
  | register req => cases h

/-- The registration methods, each with the call that it makes and how it goes on. -/
theorem of_method_register {s : Submitter} {api : Api} {call : RegisterCall}
    {next : Int32 → RegisterArg → Submitter × Value} (h : s.method api = .register call next) :
    (api = .registerRingFd ∧ ¬ s.enterRingFd ≥ 0 ∧
        call = s.executeRegister .registerRingFds
          (.rsrcUpdate 0xFFFFFFFF 0 s.fd.toInt64.toUInt64) 1 ∧
        ∀ ret offset resv data, (next ret (.rsrcUpdate offset resv data)).1 =
          { s with enterRingFd := offset.toInt32 }) ∨
      (api = .unregisterRingFd ∧ s.enterRingFd ≥ 0 ∧
        call = s.executeRegister .unregisterRingFds (.rsrcUpdate s.enterRingFd.toUInt32 0 0) 1 ∧
        ∀ ret out, (next ret out).1 = { s with enterRingFd := -1 }) ∨
      ∃ req, api = .register req ∧ call = req.call s ∧ ∀ ret out, (next ret out).1 = s := by
  cases api with
  | registerRingFd =>
      simp only [Submitter.method, Submitter.registerRingFd] at h
      split at h
      · cases h
      · rename_i hneg
        cases h
        exact .inl ⟨rfl, hneg, rfl, fun _ _ _ _ => rfl⟩
  | unregisterRingFd =>
      simp only [Submitter.method, Submitter.unregisterRingFd] at h
      split at h
      · cases h
      · rename_i hnonneg
        cases h
        exact .inr (.inl ⟨rfl, Int32.not_lt.mp hnonneg, rfl, fun _ _ => rfl⟩)
  | register req =>
      cases h
      exact .inr (.inr ⟨req, rfl, rfl, fun _ _ => rfl⟩)
  | enter => cases h
  | squeueWait => cases h
  | submit req len f1 f2 =>
      simp only [Submitter.method] at h
      split at h <;> cases h

/-- No opcode has the mark, and adding the mark does not hide the opcode. -/
theorem code_unmarked (op : IoringRegisterOp) :
    op.code &&& Sys.ioringRegisterUseRegisteredRing = 0 := by
  cases op <;> decide

theorem plainOpcode_code (op : IoringRegisterOp) : plainOpcode op.code = op.code := by
  cases op <;> decide

theorem plainOpcode_marked (op : IoringRegisterOp) :
    plainOpcode (op.code ||| Sys.ioringRegisterUseRegisteredRing) = op.code := by
  cases op <;> decide

theorem plainOpcode_execute (ring : RegisterRing) (op : IoringRegisterOp) (arg : RegisterArg)
    (len : UInt32) : plainOpcode (execute ring op.code arg len).opcode = op.code := by
  cases ring with
  | rawFd fd => exact plainOpcode_code op
  | registeredIndex index => exact plainOpcode_marked op

/-- A request makes its call through `execute_register`, except for the clone of a table. -/
theorem RegisterRequest.call_eq (s : Submitter) (req : RegisterRequest) :
    ∃ arg len, req.call s =
      execute (if req.clones then .rawFd s.fd else s.registerRing) req.opcode.code arg len := by
  cases req <;> exact ⟨_, _, rfl⟩

/-- The opcodes for the ring fd are told from all others. -/
theorem code_eq_ringFds_iff (op : IoringRegisterOp) :
    (op.code = IoringRegisterOp.registerRingFds.code ↔ op = .registerRingFds) ∧
      (op.code = IoringRegisterOp.unregisterRingFds.code ↔ op = .unregisterRingFds) := by
  cases op <;> decide

/-- None of the requests is one for the ring fd. -/
theorem RegisterRequest.plainOpcode_ne (s : Submitter) (req : RegisterRequest) :
    plainOpcode (req.call s).opcode ≠ IoringRegisterOp.registerRingFds.code ∧
      plainOpcode (req.call s).opcode ≠ IoringRegisterOp.unregisterRingFds.code := by
  obtain ⟨arg, len, hcall⟩ := req.call_eq s
  have hne : req.opcode ≠ .registerRingFds ∧ req.opcode ≠ .unregisterRingFds := by
    cases req <;> exact ⟨nofun, nofun⟩
  rw [hcall, plainOpcode_execute, Ne, Ne, (code_eq_ringFds_iff _).1, (code_eq_ringFds_iff _).2]
  exact hne

/-! ## What a successful answer does, opcode by opcode -/

section Answers

variable {table table' : Table} {call : RegisterCall} {ret : Int32} {out : RegisterArg}

theorem Answers.of_ringFds {offset resv : UInt32} {data : UInt64}
    (h : Answers table call (.ok ret) out table')
    (hop : plainOpcode call.opcode = IoringRegisterOp.registerRingFds.code)
    (harg : call.arg = .rsrcUpdate offset resv data) :
    ∃ index, table index = none ∧ index.toNat < 2 ^ 31 ∧ out = .rsrcUpdate index resv data ∧
      table' = Function.update table index (some data.toInt64.toInt32) := by
  cases h with
  | ringFds offset' resv' index data' _ _ harg' hfresh hlt =>
      rw [harg] at harg'
      cases harg'
      exact ⟨index, hfresh, hlt, rfl, rfl⟩
  | unregisterRingFds _ _ _ _ hop' => exact absurd (hop.symm.trans hop') (by decide)
  | other _ _ hne => exact absurd hop hne

theorem Answers.of_unregisterRingFds {offset resv : UInt32} {data : UInt64}
    (h : Answers table call (.ok ret) out table')
    (hop : plainOpcode call.opcode = IoringRegisterOp.unregisterRingFds.code)
    (harg : call.arg = .rsrcUpdate offset resv data) :
    out = .rsrcUpdate offset resv data ∧ table' = Function.update table offset none := by
  cases h with
  | ringFds _ _ _ _ _ hop' => exact absurd (hop.symm.trans hop') (by decide)
  | unregisterRingFds _ _ _ _ _ harg' =>
      rw [harg] at harg'
      cases harg'
      exact ⟨harg, rfl⟩
  | other _ _ _ hne => exact absurd hop hne

theorem Answers.of_other (h : Answers table call (.ok ret) out table')
    (hne : plainOpcode call.opcode ≠ IoringRegisterOp.registerRingFds.code)
    (hne' : plainOpcode call.opcode ≠ IoringRegisterOp.unregisterRingFds.code) :
    table' = table := by
  cases h with
  | ringFds _ _ _ _ _ hop => exact absurd hop hne
  | unregisterRingFds _ _ _ _ hop => exact absurd hop hne'
  | other => rfl

end Answers

section System

variable {ι : Type*} [DecidableEq ι] {fd : Int32} {params : Parameters}

/-- Every submitter remembers the index it holds, and the table leads from each such
index to the ring, with no two submitters holding the same one. -/
structure Inv (fd : Int32) (params : Parameters) (held : ι → Option UInt32) (s : System ι) :
    Prop where
  submitter_eq : ∀ i, s.submitters i = .holding fd params (held i)
  index_lt : ∀ i index, held i = some index → index.toNat < 2 ^ 31
  table : Held s.table held fd

omit [DecidableEq ι] in
theorem Inv.start (table : Table) :
    Inv fd params (fun _ => none) (System.start ι fd params table) where
  submitter_eq _ := rfl
  index_lt := nofun
  table := .nobody

variable {held : ι → Option UInt32} {s s' : System ι}

omit [DecidableEq ι] in
/-- A submitter's field is no negative number exactly when it holds an index. -/
theorem Inv.enterRingFd (h : Inv fd params held s) (i : ι) :
    ((s.submitters i).enterRingFd ≥ 0 ∧ ∃ index, held i = some index ∧
        (s.submitters i).enterRingFd = index.toInt32) ∨
      (¬ (s.submitters i).enterRingFd ≥ 0 ∧ held i = none) := by
  rw [h.submitter_eq i]
  cases hheld : held i with
  | none => exact .inr ⟨(by decide : ¬ (-1 : Int32) ≥ 0), rfl⟩
  | some index => exact .inl ⟨Submitter.toInt32_nonneg (h.index_lt i index hheld), index, rfl, rfl⟩

omit [DecidableEq ι] in
theorem Inv.fd_eq (h : Inv fd params held s) (i : ι) : (s.submitters i).fd = fd := by
  rw [h.submitter_eq i]
  cases held i <;> rfl

omit [DecidableEq ι] in
theorem Inv.params_eq (h : Inv fd params held s) (i : ι) :
    (s.submitters i).params = params := by
  rw [h.submitter_eq i]
  cases held i <;> rfl

omit [DecidableEq ι] in
/-- A submitter differs from another of the ring only in what it holds. -/
theorem Inv.with_index (h : Inv fd params held s) (i : ι) (index : UInt32) :
    { s.submitters i with enterRingFd := index.toInt32 } =
      Submitter.holding fd params (some index) := by
  rw [h.submitter_eq i]
  cases held i <;> rfl

omit [DecidableEq ι] in
theorem Inv.with_none (h : Inv fd params held s) (i : ι) :
    { s.submitters i with enterRingFd := -1 } = Submitter.holding fd params none := by
  rw [h.submitter_eq i]
  cases held i <;> rfl

/-- The invariant after submitter `i` came to hold `k`. -/
theorem Inv.update (h : Inv fd params held s) (i : ι) {k : Option UInt32}
    (hlt : ∀ index, k = some index → index.toNat < 2 ^ 31) {table : Table}
    (htable : Held table (Function.update held i k) fd) :
    Inv fd params (Function.update held i k)
      ⟨Function.update s.submitters i (.holding fd params k), table⟩ where
  submitter_eq j := by
    change Function.update s.submitters i _ j = _
    by_cases hj : j = i
    · rw [hj, Function.update_self, Function.update_self]
    · rw [Function.update_of_ne hj, Function.update_of_ne hj]
      exact h.submitter_eq j
  index_lt j index hindex := by
    by_cases hj : j = i
    · rw [hj, Function.update_self] at hindex
      exact hlt index hindex
    · rw [Function.update_of_ne hj] at hindex
      exact h.index_lt j index hindex
  table := htable

theorem record_ringFds (held : ι → Option UInt32) (i : ι) (api : Api) {call : RegisterCall}
    (hop : plainOpcode call.opcode = IoringRegisterOp.registerRingFds.code) (ret : Int32)
    (offset resv : UInt32) (data : UInt64) :
    record held (.registered i api call (.ok ret) (.rsrcUpdate offset resv data)) =
      Function.update held i (some offset) := if_pos hop

theorem record_unregisterRingFds {held : ι → Option UInt32} {i : ι} (api : Api)
    {call : RegisterCall} {offset : UInt32} (hheld : held i = some offset)
    (hop : plainOpcode call.opcode = IoringRegisterOp.unregisterRingFds.code) (ret : Int32)
    (resv : UInt32) (data : UInt64) :
    record held (.registered i api call (.ok ret) (.rsrcUpdate offset resv data)) =
      Function.update held i none := by
  have hne : ¬ plainOpcode call.opcode = IoringRegisterOp.registerRingFds.code := by
    rw [hop]
    decide
  rw [record, if_neg hne, if_pos ⟨hop, hheld⟩]

theorem record_other (held : ι → Option UInt32) (i : ι) (api : Api) {call : RegisterCall}
    (hne : plainOpcode call.opcode ≠ IoringRegisterOp.registerRingFds.code)
    (hne' : plainOpcode call.opcode ≠ IoringRegisterOp.unregisterRingFds.code)
    (answer : Except Int32 Int32) (out : RegisterArg) :
    record held (.registered i api call answer out) = held := by
  unfold record
  split
  · rename_i heq
    cases heq
    rw [if_neg hne, if_neg fun hand => hne' hand.1]
  · rename_i heq
    cases heq
  · rfl

/-- `register_ring_fd` that succeeds: nothing was held, and the fresh index is, from now on. -/
theorem Inv.registerRingFd (h : Inv fd params held s) {i : ι} {call : RegisterCall}
    {next : Int32 → RegisterArg → Submitter × Value} {ret : Int32} {out : RegisterArg}
    {table : Table} (hmethod : (s.submitters i).method .registerRingFd = .register call next)
    (hanswers : Answers s.table call (.ok ret) out table) :
    held i = none ∧ ∃ index, s.table index = none ∧ index.toNat < 2 ^ 31 ∧
      (next ret out).1 = .holding fd params (some index) ∧
      table = Function.update s.table index (some fd) ∧
      record held (.registered i .registerRingFd call (.ok ret) out) =
        Function.update held i (some index) := by
  rcases of_method_register hmethod with ⟨-, hneg, hcall, hnext⟩ | ⟨hapi, -⟩ | ⟨req, hapi, -⟩
  · have hop : plainOpcode call.opcode = IoringRegisterOp.registerRingFds.code := by
      rw [hcall]
      exact plainOpcode_execute _ _ _ _
    obtain ⟨index, hfresh, hlt, rfl, rfl⟩ := hanswers.of_ringFds hop (congrArg _ hcall)
    have hheld : held i = none := by
      rcases h.enterRingFd i with ⟨hnonneg, -⟩ | ⟨-, hheld⟩
      · exact absurd hnonneg hneg
      · exact hheld
    refine ⟨hheld, index, hfresh, hlt, ?_, ?_, record_ringFds held i _ hop _ _ _ _⟩
    · rw [hnext, h.with_index]
    · rw [Int64.toInt64_toUInt64, Int32.toInt32_toInt64, h.fd_eq]
  · cases hapi
  · cases hapi

/-- `unregister_ring_fd` that succeeds: what was held is given back, and nothing is. -/
theorem Inv.unregisterRingFd (h : Inv fd params held s) {i : ι} {call : RegisterCall}
    {next : Int32 → RegisterArg → Submitter × Value} {ret : Int32} {out : RegisterArg}
    {table : Table} (hmethod : (s.submitters i).method .unregisterRingFd = .register call next)
    (hanswers : Answers s.table call (.ok ret) out table) :
    ∃ index, held i = some index ∧ (next ret out).1 = .holding fd params none ∧
      table = Function.update s.table index none ∧
      record held (.registered i .unregisterRingFd call (.ok ret) out) =
        Function.update held i none := by
  rcases of_method_register hmethod with ⟨hapi, -⟩ | ⟨-, hnonneg, hcall, hnext⟩ | ⟨req, hapi, -⟩
  · cases hapi
  · have hop : plainOpcode call.opcode = IoringRegisterOp.unregisterRingFds.code := by
      rw [hcall]
      exact plainOpcode_execute _ _ _ _
    obtain ⟨index, hheld, hindex⟩ : ∃ index, held i = some index ∧
        (s.submitters i).enterRingFd = index.toInt32 := by
      rcases h.enterRingFd i with ⟨-, hindex⟩ | ⟨hneg, -⟩
      · exact hindex
      · exact absurd hnonneg hneg
    rw [hindex, UInt32.toUInt32_toInt32] at hcall
    obtain ⟨rfl, rfl⟩ := hanswers.of_unregisterRingFds hop (congrArg _ hcall)
    refine ⟨index, hheld, ?_, rfl, record_unregisterRingFds _ hheld hop _ _ _⟩
    rw [hnext, h.with_none]
  · cases hapi

/-- One registration call that succeeds. -/
theorem Inv.registered (h : Inv fd params held s) {i : ι} {api : Api} {call : RegisterCall}
    {next : Int32 → RegisterArg → Submitter × Value} {ret : Int32} {out : RegisterArg}
    {table : Table} (hmethod : (s.submitters i).method api = .register call next)
    (hanswers : Answers s.table call (.ok ret) out table) :
    Inv fd params (record held (.registered i api call (.ok ret) out))
      ⟨Function.update s.submitters i (next ret out).1, table⟩ := by
  rcases of_method_register hmethod with ⟨rfl, -⟩ | ⟨rfl, -⟩ | ⟨req, -, rfl, hnext⟩
  · obtain ⟨-, index, hfresh, hlt, hnext, rfl, hrecord⟩ := h.registerRingFd hmethod hanswers
    rw [hrecord, hnext]
    exact h.update i (fun index' heq => Option.some.inj heq ▸ hlt) (h.table.enter hfresh i)
  · obtain ⟨index, hheld, hnext, rfl, hrecord⟩ := h.unregisterRingFd hmethod hanswers
    rw [hrecord, hnext]
    exact h.update (k := none) i nofun (h.table.release hheld)
  · -- every other method leaves the submitter and the table alone
    obtain ⟨hne, hne'⟩ := req.plainOpcode_ne (s.submitters i)
    rw [record_other held i api hne hne', hnext, hanswers.of_other hne hne',
      Function.update_eq_self]
    exact h

theorem Inv.step (h : Inv fd params held s) {event : Event ι} (hstep : Step s event s') :
    Inv fd params (record held event) s' := by
  cases hstep with
  | returned i api result hmethod => exact h
  | entered i api call answer hmethod => exact h
  | registered i api call next answer out table hmethod hanswers =>
      cases answer with
      | ok ret => exact h.registered hmethod hanswers
      | error errno =>
          cases hanswers
          exact h
  | renewed i =>
      rw [h.fd_eq, h.params_eq]
      exact h.update (k := none) i nofun (h.table.forget i)

omit [DecidableEq ι] in
/-- An `enter` that passes an index says so, one that passes the descriptor does not. -/
theorem Inv.entered (h : Inv fd params held s) {i : ι} {api : Api} {call : EnterCall}
    (hmethod : (s.submitters i).method api = .enter call) :
    call.designates s.table = some fd ∧
      (call.flag &&& Sys.ioringEnterRegisteredRing ≠ 0 ↔ (held i).isSome = true) ∧
      (∀ index, held i = some index → call.fd = index.toInt32 ∧
        call.flag = api.flags (s.submitters i) ||| Sys.ioringEnterRegisteredRing) ∧
      (held i = none → call.fd = fd ∧ call.flag = api.flags (s.submitters i)) := by
  have hfree : api.flags (s.submitters i) &&& Sys.ioringEnterRegisteredRing = 0 := Api.flags_free
  obtain ⟨toSubmit, minComplete, arg, size, rfl⟩ := of_method_enter hmethod
  rcases h.enterRingFd i with ⟨hnonneg, index, hheld, hindex⟩ | ⟨hneg, hheld⟩
  · rw [Submitter.enter_of_nonneg hnonneg, hindex, hheld]
    have hmarked : (api.flags (s.submitters i) ||| Sys.ioringEnterRegisteredRing) &&&
        Sys.ioringEnterRegisteredRing ≠ 0 := by
      rw [Foundation.or_and_self₃₂]
      decide
    refine ⟨?_, iff_of_true hmarked rfl, ?_, nofun⟩
    · rw [EnterCall.designates, if_pos (bne_iff_ne.mpr hmarked), UInt32.toUInt32_toInt32]
      exact h.table.leads i index hheld
    · intro index' heq
      cases heq
      exact ⟨rfl, rfl⟩
  · rw [Submitter.enter_of_neg hneg, h.fd_eq, hheld]
    refine ⟨?_, iff_of_false (not_not.mpr hfree) nofun, nofun, fun _ => ⟨rfl, rfl⟩⟩
    rw [EnterCall.designates, if_neg (by rw [bne_iff_ne]; exact not_not.mpr hfree)]

omit [DecidableEq ι] in
/-- A registration method makes its call through `execute`, on the raw descriptor if it
clones a table and on what `register_ring` says otherwise. -/
theorem of_method_execute {s : Submitter} {api : Api} {call : RegisterCall}
    {next : Int32 → RegisterArg → Submitter × Value} (h : s.method api = .register call next) :
    ∃ op arg len, api.opcode = some op ∧
      call = execute (if api.clones then .rawFd s.fd else s.registerRing) op.code arg len := by
  rcases of_method_register h with ⟨rfl, -, rfl, -⟩ | ⟨rfl, -, rfl, -⟩ | ⟨req, rfl, rfl, -⟩
  · exact ⟨_, _, _, rfl, rfl⟩
  · exact ⟨_, _, _, rfl, rfl⟩
  · obtain ⟨arg, len, hcall⟩ := req.call_eq s
    exact ⟨_, _, _, rfl, hcall⟩

/-- A registration method passes the index when there is one, the kernel takes indices
there, and the method does not clone a table. -/
def PassesIndex (params : Parameters) (api : Api) (index : Option UInt32) : Prop :=
  index.isSome = true ∧ params.isFeatureRegRegRing = true ∧ api.clones = false

omit [DecidableEq ι] in
/-- How a registration method of submitter `i` names the ring. -/
theorem Inv.register_ring (h : Inv fd params held s) (i : ι) (api : Api) :
    (PassesIndex params api (held i) ∧ ∃ index, held i = some index ∧
        (if api.clones then .rawFd (s.submitters i).fd else (s.submitters i).registerRing) =
          RegisterRing.registeredIndex index.toInt32) ∨
      ¬ PassesIndex params api (held i) ∧
        (if api.clones then .rawFd (s.submitters i).fd else (s.submitters i).registerRing) =
          RegisterRing.rawFd fd := by
  have hfd := h.fd_eq i
  have hparams := h.params_eq i
  cases hclones : api.clones with
  | true => exact .inr ⟨fun hpasses => absurd (hclones.symm.trans hpasses.2.2) (by decide),
      congrArg _ hfd⟩
  | false =>
      rcases h.enterRingFd i with ⟨hnonneg, index, hheld, hindex⟩ | ⟨hneg, hheld⟩
      · have hring := Submitter.registerRing_of_nonneg hnonneg
        rw [hparams, hindex, hfd] at hring
        cases hfeature : params.isFeatureRegRegRing with
        | true =>
            rw [hfeature] at hring
            exact .inl ⟨⟨congrArg _ hheld, hfeature, hclones⟩, index, hheld, hring⟩
        | false =>
            rw [hfeature] at hring
            exact .inr ⟨fun hpasses => absurd (hfeature.symm.trans hpasses.2.1) (by decide), hring⟩
      · refine .inr ⟨?_, ?_⟩
        · intro hpasses
          rw [hheld] at hpasses
          cases hpasses.1
        · rw [← hfd]
          exact Submitter.registerRing_of_neg hneg

omit [DecidableEq ι] in
/-- A registration call that passes an index says so, one that passes the descriptor
does not. -/
theorem Inv.made (h : Inv fd params held s) {i : ι} {api : Api} {call : RegisterCall}
    {next : Int32 → RegisterArg → Submitter × Value}
    (hmethod : (s.submitters i).method api = .register call next) :
    ∃ op, api.opcode = some op ∧ call.designates s.table = some fd ∧
      (call.opcode &&& Sys.ioringRegisterUseRegisteredRing ≠ 0 ↔
        PassesIndex params api (held i)) ∧
      (∀ index, held i = some index → PassesIndex params api (held i) →
        call.fd = index.toInt32 ∧
          call.opcode = op.code ||| Sys.ioringRegisterUseRegisteredRing) ∧
      (¬ PassesIndex params api (held i) → call.fd = fd ∧ call.opcode = op.code) := by
  obtain ⟨op, arg, len, hop, rfl⟩ := of_method_execute hmethod
  refine ⟨op, hop, ?_⟩
  rcases h.register_ring i api with ⟨hpasses, index, hheld, hring⟩ | ⟨hpasses, hring⟩
  · have hmarked : (op.code ||| Sys.ioringRegisterUseRegisteredRing) &&&
        Sys.ioringRegisterUseRegisteredRing ≠ 0 := by
      rw [Foundation.or_and_self₃₂]
      decide
    rw [hring]
    refine ⟨?_, iff_of_true hmarked hpasses, ?_, absurd hpasses⟩
    · rw [RegisterCall.designates, execute, if_pos (bne_iff_ne.mpr hmarked),
        UInt32.toUInt32_toInt32]
      exact h.table.leads i index hheld
    · intro index' hheld' _
      rw [← Option.some.inj (hheld.symm.trans hheld')]
      exact ⟨rfl, rfl⟩
  · have hfree := not_not.mpr (code_unmarked op)
    rw [hring]
    refine ⟨?_, iff_of_false hfree hpasses, fun _ _ h' => absurd h' hpasses, fun _ => ⟨rfl, rfl⟩⟩
    rw [RegisterCall.designates, execute, if_neg (by rw [bne_iff_ne]; exact hfree)]

end System

end IoUring.Submit
