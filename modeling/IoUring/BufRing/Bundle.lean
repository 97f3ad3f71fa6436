import IoUring.BufRing.Handles

/-!
# Bundles

With bundles one completion stands for several picks: it names the first buffer
and gives the number of bytes in all of them. The handles for it are made under
the assumption that the ids of the buffers are consecutive, which the kernel
does not look at: it picks them in the order of their pushes.
-/

namespace IoUring.BufRing

open Foundation

/-- The data of a bundle: every buffer but the last is full, and the last is not empty. -/
inductive Fills (bufLen : Nat) : List (List UInt8) → Prop
  | last {data} (hpos : 0 < data.length) (hle : data.length ≤ bufLen) : Fills bufLen [data]
  | full {data chunks} (hdata : data.length = bufLen) (rest : Fills bufLen chunks) :
      Fills bufLen (data :: chunks)

/-- The kernel's writes of several pieces of data. -/
def fillAll (heap : UInt64 → List UInt8) (parts : List (UInt64 × List UInt8)) :
    UInt64 → List UInt8 :=
  parts.foldl (fun heap part => fill heap part.1 part.2) heap

section Fills

variable {bufLen : Nat} {chunks : List (List UInt8)}

/-- As many buffers as the loop of `get_bufs` counts in the total. -/
theorem Fills.length_eq (hbuf : 0 < bufLen) (h : Fills bufLen chunks) :
    chunks.length = (chunks.flatten.length + bufLen - 1) / bufLen := by
  induction h with
  | @last data hpos hle =>
      rw [List.flatten_singleton, chunks_succ hpos hbuf, Nat.sub_eq_zero_of_le hle, Nat.zero_add,
        Nat.div_eq_of_lt (by omega)]
      rfl
  | @full data chunks hdata rest ih =>
      rw [List.flatten_cons, List.length_append, hdata, chunks_succ (by omega) hbuf,
        Nat.add_sub_cancel_left, ← ih]
      rfl

end Fills

section FillAll

variable {heap : UInt64 → List UInt8} {addr : UInt64} {data : List UInt8}
  {parts : List (UInt64 × List UInt8)}

theorem fillAll_of_notMem (h : addr ∉ parts.map Prod.fst) :
    fillAll heap parts addr = heap addr := by
  induction parts generalizing heap with
  | nil => rfl
  | cons part parts ih =>
      obtain ⟨hne, hrest⟩ := not_or.mp (mt List.mem_cons.mpr h)
      exact (ih hrest).trans (Function.update_of_ne hne _ _)

/-- Each piece of data is found where it was written. -/
theorem take_fillAll (hnodup : (parts.map Prod.fst).Nodup) (hmem : (addr, data) ∈ parts) :
    (fillAll heap parts addr).take data.length = data := by
  induction parts generalizing heap with
  | nil => exact absurd hmem List.not_mem_nil
  | cons part parts ih =>
      obtain ⟨hfirst, hrest⟩ := List.nodup_cons.mp hnodup
      rcases List.mem_cons.mp hmem with rfl | hmem'
      · change ((fillAll (fill heap addr data) parts) addr).take data.length = data
        rw [fillAll_of_notMem hfirst, fill, Function.update_self]
        exact List.take_left
      · exact ih hrest hmem'

end FillAll

/-! ## The kernel's picks -/

/-- The pushes of `register` come first, in the order of the ids. -/
structure FirstPass (l : Ledger) (s : State) : Prop where
  take_eq : l.pushed.take s.ring.bufCnt.toNat = s.ring.bids.take l.pushed.length
  registering : ∀ next, s.pc = .registering next → l.pushed.length = next
  registered : (∀ next, s.pc ≠ .registering next) → s.ring.bufCnt.toNat ≤ l.pushed.length

theorem FirstPass.step {l : Ledger} {s s' : State} {e : Event} (h : FirstPass l s)
    (hstep : Step s e s') : FirstPass (l.record e) s' := by
  obtain ⟨localTail, ringStart, hring⟩ := hstep.sameRing
  have hbids : s'.ring.bids = s.ring.bids := by
    rw [hring]
    rfl
  have hcnt : s'.ring.bufCnt = s.ring.bufCnt := by rw [hring]
  obtain ⟨htake, hregistering, hregistered⟩ := h
  cases hstep with
  | @registerPush r head heap posted live next r' hnext hpush =>
      have hlength : l.pushed.length = next := hregistering next rfl
      have hbid : r.bids[next]? = some (.ofNat next) := by
        simp [InnerBufRing.bids, hnext]
      refine ⟨?_, ?_, ?_⟩
      · rw [hbids, hcnt]
        change (l.pushed ++ [_]).take r.bufCnt.toNat = r.bids.take (l.pushed ++ [_]).length
        change l.pushed.take r.bufCnt.toNat = r.bids.take l.pushed.length at htake
        rw [List.take_of_length_le (by omega)] at htake
        rw [List.take_of_length_le (by simp; omega), List.length_append, List.length_singleton,
          List.take_add_one, ← htake, hlength, hbid]
        rfl
      · intro next' hpc
        rw [← Pc.registering.inj hpc, ← hlength]
        exact List.length_append
      · intro hpc
        exact absurd rfl (hpc _)
  | registerSync =>
      refine ⟨htake, by simp, ?_⟩
      intro _
      exact (hregistering _ rfl).ge
  | @dropPush r head heap posted after r' before buf hpush =>
      have hle : r.bufCnt.toNat ≤ l.pushed.length := hregistered (by simp)
      have hlength : r.bids.length ≤ l.pushed.length := by
        rw [InnerBufRing.bids, List.length_map, List.length_range]
        exact hle
      refine ⟨?_, by simp, ?_⟩
      · rw [hbids, hcnt]
        change (l.pushed ++ [_]).take r.bufCnt.toNat = r.bids.take (l.pushed ++ [_]).length
        rw [List.take_append_of_le_length hle, htake, List.take_of_length_le hlength,
          List.take_of_length_le (by rw [List.length_append]; omega)]
      · intro _
        rw [hcnt]
        change r.bufCnt.toNat ≤ (l.pushed ++ [_]).length
        rw [List.length_append]
        exact hle.trans (Nat.le_add_right _ _)
  | dropSync => exact ⟨htake, by simp, fun _ => hregistered (by simp)⟩
  | _ => exact ⟨htake, hregistering, hregistered⟩

section

variable {host : Host} {b : Builder} {r : InnerBufRing} {heap : UInt64 → List UInt8}
  {events : List Event} {s : State}

theorem FirstPass.run (run : Run Step (start r heap) events s) :
    FirstPass (.of events) s := by
  refine run.invariant (fun _ _ _ _ h hstep => FirstPass.step h hstep) ⟨?_, ?_, ?_⟩
  · exact List.take_nil.trans List.take_zero.symm
  · intro next hpc
    exact Pc.registering.inj hpc
  · intro hpc
    exact absurd rfl (hpc 0)

section Picks

variable {l : Ledger} {r : InnerBufRing} {head : UInt16} {n : Nat}

end Picks

section Handles

variable {bufLen : Nat} {bid : UInt16} {chunks : List (List UInt8)} {bufs : List GBuf}

/-- With the right ids every handle shows what was written into its buffer. -/
theorem Bundle.asSlice_eq {r : InnerBufRing} {heap : UInt64 → List UInt8} (wf : r.WellFormed)
    {entries : List BufRingEntry} (hentries : entries.map BufRingEntry.view =
      (bufs.map GBuf.bid).map r.describe) (hnodup : (bufs.map GBuf.bid).Nodup)
    (hlen : bufs.map (fun buf => buf.len.toNat) = chunks.map List.length) :
    bufs.map (fun buf => buf.asSlice r
      (fillAll heap ((entries.map BufRingEntry.addr).zip chunks))) = chunks.map some := by
  have hlength : entries.length = bufs.length := by
    simpa using congrArg List.length hentries
  have hchunks : bufs.length = chunks.length := by simpa using congrArg List.length hlen
  have haddr {i : Nat} (hi : i < bufs.length) :
      r.stablePtr bufs[i].bid = some entries[i].addr := by
    have hview : entries[i].view = r.describe bufs[i].bid := by
      simpa [hi, hlength] using congrArg (fun t => t[i]?) hentries
    exact (congrArg (fun v => v.1) hview).symm
  have haddrs : (entries.map BufRingEntry.addr).Nodup := by
    apply List.Nodup.of_map some
    have hptrs : (entries.map BufRingEntry.addr).map some =
        (bufs.map GBuf.bid).map r.stablePtr := by
      simpa [Function.comp_def, BufRingEntry.view, InnerBufRing.describe] using
        congrArg (List.map fun v => v.1) hentries
    rw [hptrs]
    apply hnodup.map_on
    intro bid hbid bid' _ heq
    obtain ⟨buf, hbuf, rfl⟩ := List.mem_map.mp hbid
    obtain ⟨i, hi, rfl⟩ := List.getElem_of_mem hbuf
    by_contra hne
    exact stablePtr_ne wf (Ne.symm hne) (haddr hi) (heq.symm.trans (haddr hi))
  apply List.ext_getElem
  · rw [List.length_map, List.length_map, hchunks]
  · intro i hi hi'
    rw [List.length_map] at hi hi'
    have hi'' : i < entries.length := hlength.symm ▸ hi
    have hsize : bufs[i].len.toNat = chunks[i].length := by
      simpa [hi, hi'] using congrArg (fun t => t[i]?) hlen
    rw [List.getElem_map, List.getElem_map, GBuf.asSlice, haddr hi, Option.map_some, hsize]
    congr 1
    apply take_fillAll
    · rw [List.map_fst_zip (by rw [List.length_map, hlength, hchunks])]
      exact haddrs
    · apply List.mem_iff_getElem.mpr
      refine ⟨i, ?_, ?_⟩
      · rw [List.length_zip, List.length_map]
        omega
      · rw [List.getElem_zip, List.getElem_map]

end Handles

end

end IoUring.BufRing
