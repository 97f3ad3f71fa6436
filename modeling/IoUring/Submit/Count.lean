import IoUring.Foundation.Cast
import IoUring.Foundation.Usize
import IoUring.Submit.Decision
import IoUring.Submit.Register

/-!
# Counts that are wider than their field

The submit functions take the number of completions to wait for as a `usize`,
and six registration functions take it from the length of a slice. Each casts
it to the `u32` that the kernel reads.
-/

namespace IoUring.Submit

/-- A registration of what a slice of the caller's holds. -/
inductive SliceCall where
  | registerBuffers (bufs : Slice)
  | registerBuffersUpdate (offset : UInt32) (bufs : Slice) (tags : Option Slice)
  | registerBuffers2 (bufs tags : Slice)
  | registerFiles (fds : Slice)
  | registerFilesUpdate (offset : UInt32) (fds : Slice)
  | registerRestrictions (res : Slice)

namespace SliceCall

/-- The call that is made. -/
def call (s : Submitter) : SliceCall → RegisterCall
  | .registerBuffers bufs => s.registerBuffers bufs
  | .registerBuffersUpdate offset bufs tags => s.registerBuffersUpdate offset bufs tags
  | .registerBuffers2 bufs tags => s.registerBuffers2 bufs tags
  | .registerFiles fds => s.registerFiles fds
  | .registerFilesUpdate offset fds => s.registerFilesUpdate offset fds
  | .registerRestrictions res => s.registerRestrictions res

/-- The slices that the kernel reads. -/
def slices : SliceCall → List Slice
  | .registerBuffers bufs => [bufs]
  | .registerBuffersUpdate _ bufs tags => bufs :: tags.toList
  | .registerBuffers2 bufs tags => [bufs, tags]
  | .registerFiles fds => [fds]
  | .registerFilesUpdate _ fds => [fds]
  | .registerRestrictions res => [res]

/-- The number of items that the caller gives: as many as every slice has. -/
def given : SliceCall → Nat
  | .registerBuffers bufs => bufs.len.toNat
  | .registerBuffersUpdate _ bufs none => bufs.len.toNat
  | .registerBuffersUpdate _ bufs (some tags) => min bufs.len.toNat tags.len.toNat
  | .registerBuffers2 bufs tags => min bufs.len.toNat tags.len.toNat
  | .registerFiles fds => fds.len.toNat
  | .registerFilesUpdate _ fds => fds.len.toNat
  | .registerRestrictions res => res.len.toNat

end SliceCall

/-- The number of items the kernel takes: the field of the argument, where it has one. -/
def RegisterCall.count (call : RegisterCall) : UInt32 :=
  match call.arg with
  | .rsrcUpdate2 _ _ _ _ nr _ => nr
  | .rsrcRegister nr _ _ _ _ => nr
  | _ => call.nrArgs

namespace SliceCall

/-- The number of items is a `usize`, and the call passes what is left of it in a `u32`. -/
theorem count_call (s : Submitter) (c : SliceCall) :
    ∃ nr : UInt64, nr.toNat = c.given ∧ (c.call s).count = nr.toUInt32 := by
  cases c with
  | registerBuffers bufs => exact ⟨bufs.len, rfl, rfl⟩
  | registerBuffersUpdate offset bufs tags =>
      cases tags with
      | none => exact ⟨bufs.len, rfl, rfl⟩
      | some tags => exact ⟨min bufs.len tags.len, Foundation.toNat_min _ _, rfl⟩
  | registerBuffers2 bufs tags => exact ⟨min bufs.len tags.len, Foundation.toNat_min _ _, rfl⟩
  | registerFiles fds | registerFilesUpdate _ fds => exact ⟨fds.len, rfl, rfl⟩
  | registerRestrictions res => exact ⟨res.len, rfl, rfl⟩

/-- Every slice has the items that are given. -/
theorem given_le {c : SliceCall} {slice : Slice} (hmem : slice ∈ c.slices) :
    c.given ≤ slice.len.toNat := by
  cases c with
  | registerBuffers | registerFiles | registerFilesUpdate | registerRestrictions =>
      rw [List.mem_singleton.mp hmem]
      exact Nat.le_refl _
  | registerBuffersUpdate offset bufs tags =>
      cases tags with
      | none =>
          rw [List.mem_singleton.mp hmem]
          exact Nat.le_refl _
      | some tags =>
          rcases List.mem_cons.mp hmem with rfl | hmem
          · exact Nat.min_le_left _ _
          · rw [List.mem_singleton.mp hmem]
            exact Nat.min_le_right _ _
  | registerBuffers2 bufs tags =>
      rcases List.mem_cons.mp hmem with rfl | hmem
      · exact Nat.min_le_left _ _
      · rw [List.mem_singleton.mp hmem]
        exact Nat.min_le_right _ _

end SliceCall

/-- A submit call that enters the kernel waits for as many completions as the caller wants, and a
registration passes as many items as the caller gives, exactly if the number is below
`2 ^ 32`; and whatever the number is, no slice is read behind its end. -/
theorem counts_kept_iff (s : Submitter) :
    (∀ (req : Request) (len : UInt64) (f1 f2 : UInt32) (call : EnterCall),
      s.finish len f1 f2 req = .enter call →
        (call.minComplete.toNat = req.want.toNat ↔ req.want.toNat < UInt32.size)) ∧
      ∀ c : SliceCall,
        ((c.call s).count.toNat = c.given ↔ c.given < UInt32.size) ∧
          ∀ slice ∈ c.slices, (c.call s).count.toNat ≤ slice.len.toNat := by
  constructor
  · intro req len f1 f2 call henter
    rw [s.finish_eq] at henter
    split at henter
    · cases henter
    · cases henter
      exact Foundation.toNat_toUInt32_eq_iff req.want
  · intro c
    obtain ⟨nr, hgiven, hcount⟩ := c.count_call s
    rw [hcount, ← hgiven]
    refine ⟨Foundation.toNat_toUInt32_eq_iff nr, ?_⟩
    intro slice hmem
    calc
      nr.toUInt32.toNat ≤ nr.toNat := Foundation.toNat_toUInt32_le nr
      _ = c.given := hgiven
      _ ≤ slice.len.toNat := SliceCall.given_le hmem

/-- Waiting for 7 completions with a timeout, and buffers of which two have no tag. -/
theorem counts_kept_seven :
    let s : Submitter := { fd := 3, params := .zeroed }
    (∃ call, s.finish 0 0 0 (.submitWithArgs 7 4096) = .enter call ∧
        (call.minComplete.toNat = 7 ↔ 7 < UInt32.size)) ∧
      ∀ slice ∈ (SliceCall.registerBuffers2 ⟨4096, 5⟩ ⟨8192, 3⟩).slices,
        ((SliceCall.registerBuffers2 ⟨4096, 5⟩ ⟨8192, 3⟩).call s).count.toNat ≤
          slice.len.toNat := by
  intro s
  have henter : s.finish 0 0 0 (.submitWithArgs 7 4096) = .enter ⟨3, 0, 7, 9, 4096, 24⟩ := by
    decide
  exact ⟨⟨_, henter, (counts_kept_iff s).1 _ 0 0 0 _ henter⟩, ((counts_kept_iff s).2 _).2⟩

/-- With `2 ^ 32` completions to wait for the call waits for none, and of `2 ^ 32 + 1` files
one is registered. -/
theorem counts_wrap :
    let s : Submitter := { fd := 3, params := .zeroed }
    let req : Request := .submitAndWait 4294967296
    let files : SliceCall := .registerFiles ⟨4096, 4294967297⟩
    (∃ call, s.finish 0 0 0 req = .enter call ∧ call.minComplete = 0 ∧
        call.minComplete.toNat ≠ req.want.toNat) ∧
      (files.call s).count = 1 ∧ (files.call s).count.toNat ≠ files.given := by
  intro s req files
  have henter : s.finish 0 0 0 req = .enter ⟨3, 0, 0, 1, 0, 128⟩ := by decide
  exact ⟨⟨_, henter, rfl, by decide⟩, by decide, by decide⟩

end IoUring.Submit
