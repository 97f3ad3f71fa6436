import IoUring.Foundation.FlagWord
import IoUring.Ring.Bounds

/-!
# Building a ring

`IoUring::builder` requests the entry sizes of its type parameters, the setters
add flags, and `build` hands the parameters to the kernel. `from_fd` takes a
ring that exists already and exists itself only for the small entries.
-/

namespace IoUring.Ring

/-- `Builder`; its type parameters are those of the ring it builds. -/
structure Builder (S : Squeue.EntryType) (C : Cqueue.EntryType) where
  dontfork : Bool
  params : Parameters

variable {S : Squeue.EntryType} {C : Cqueue.EntryType}

/-- `IoUring::builder`. -/
def builder (S : Squeue.EntryType) (C : Cqueue.EntryType) : Builder S C where
  dontfork := false
  params := { Parameters.zeroed with flags := S.buildFlags ||| C.buildFlags }

namespace Builder

variable (b : Builder S C)

def setDontfork : Builder S C := { b with dontfork := true }

/-- `self.params.flags |= flag`. -/
def insertFlag (flag : UInt32) : Builder S C :=
  { b with params.flags := b.params.flags ||| flag }

def setupIopoll : Builder S C := b.insertFlag Sys.ioringSetupIopoll

def setupSqpoll (idle : UInt32) : Builder S C :=
  { b.insertFlag Sys.ioringSetupSqpoll with
    params.sqThreadIdle := idle }

def setupSqpollCpu (cpu : UInt32) : Builder S C :=
  { b.insertFlag Sys.ioringSetupSqAff with
    params.sqThreadCpu := cpu }

def setupCqsize (entries : UInt32) : Builder S C :=
  { b.insertFlag Sys.ioringSetupCqsize with
    params.cqEntries := entries }

def setupClamp : Builder S C := b.insertFlag Sys.ioringSetupClamp

def setupAttachWq (fd : Int32) : Builder S C :=
  { b.insertFlag Sys.ioringSetupAttachWq with
    params.wqFd := fd.toUInt32 }

def setupRDisabled : Builder S C := b.insertFlag Sys.ioringSetupRDisabled

def setupSubmitAll : Builder S C := b.insertFlag Sys.ioringSetupSubmitAll

def setupCoopTaskrun : Builder S C := b.insertFlag Sys.ioringSetupCoopTaskrun

def setupTaskrunFlag : Builder S C := b.insertFlag Sys.ioringSetupTaskrunFlag

def setupDeferTaskrun : Builder S C := b.insertFlag Sys.ioringSetupDeferTaskrun

def setupSingleIssuer : Builder S C := b.insertFlag Sys.ioringSetupSingleIssuer

def setupNoSqarray : Builder S C := b.insertFlag Sys.ioringSetupNoSqarray

/-- The `madvise` calls of `build`, up to the first that fails. -/
def adviseDontfork (kernel : Kernel) (memory : MemoryMap) : Except Int32 Unit := do
  kernel.madvise memory.sqMmap
  kernel.madvise memory.sqeMmap
  if let some cqMmap := memory.cqMmap then
    kernel.madvise cqMmap

def build (kernel : Kernel) (entries : UInt32) : Option (Except Int32 (Instance S C)) := do
  match ← withParams S C kernel entries b.params with
  | .error errno => some (.error errno)
  | .ok ring =>
      if b.dontfork then some ((adviseDontfork kernel ring.memory).map fun _ => ring)
      else some (.ok ring)

end Builder

/-- `IoUring::new`. -/
def new (kernel : Kernel) (entries : UInt32) : Option (Except Int32 (Instance .entry .entry)) :=
  (builder .entry .entry).build kernel entries

/-- `IoUring::from_fd`. -/
def fromFd (kernel : Kernel) (fd : Int32) (params : Parameters) :
    Option (Except Int32 (Instance .entry .entry)) :=
  withFdAndParams .entry .entry kernel fd params

/-- A call of a method of the builder. -/
inductive BuilderCall where
  | dontfork
  | setupIopoll
  | setupSqpoll (idle : UInt32)
  | setupSqpollCpu (cpu : UInt32)
  | setupCqsize (entries : UInt32)
  | setupClamp
  | setupAttachWq (fd : Int32)
  | setupRDisabled
  | setupSubmitAll
  | setupCoopTaskrun
  | setupTaskrunFlag
  | setupDeferTaskrun
  | setupSingleIssuer
  | setupNoSqarray

def Builder.apply (b : Builder S C) : BuilderCall → Builder S C
  | .dontfork => b.setDontfork
  | .setupIopoll => b.setupIopoll
  | .setupSqpoll idle => b.setupSqpoll idle
  | .setupSqpollCpu cpu => b.setupSqpollCpu cpu
  | .setupCqsize entries => b.setupCqsize entries
  | .setupClamp => b.setupClamp
  | .setupAttachWq fd => b.setupAttachWq fd
  | .setupRDisabled => b.setupRDisabled
  | .setupSubmitAll => b.setupSubmitAll
  | .setupCoopTaskrun => b.setupCoopTaskrun
  | .setupTaskrunFlag => b.setupTaskrunFlag
  | .setupDeferTaskrun => b.setupDeferTaskrun
  | .setupSingleIssuer => b.setupSingleIssuer
  | .setupNoSqarray => b.setupNoSqarray

/-- A way to obtain a ring through the public functions. -/
inductive Constructor : Squeue.EntryType → Cqueue.EntryType → Type where
  | new (entries : UInt32) : Constructor .entry .entry
  | builder {S : Squeue.EntryType} {C : Cqueue.EntryType} (calls : List BuilderCall)
      (entries : UInt32) : Constructor S C
  | fromFd (fd : Int32) (params : Parameters) : Constructor .entry .entry

def Constructor.run (kernel : Kernel) :
    Constructor S C → Option (Except Int32 (Instance S C))
  | .new entries => Ring.new kernel entries
  | .builder calls entries => (calls.foldl Builder.apply (Ring.builder S C)).build kernel entries
  | .fromFd fd params => Ring.fromFd kernel fd params

/-! ## Entry types and entry sizes -/

/-- The bytes between two submission entries as the kernel places them. -/
def sqeStride (p : Parameters) : Nat :=
  if p.flags &&& Sys.ioringSetupSqe128 != 0 then 128 else 64

/-- The bytes between two completion entries as the kernel places them. -/
def cqeStride (p : Parameters) : Nat :=
  if p.flags &&& Sys.ioringSetupCqe32 != 0 then 32 else 16

/-- The flags of a ring say which entries its type has, so that for every counter `push`
writes and `pop` reads where the kernel places the slot. -/
structure Instance.SizesAgree (ring : Instance S C) : Prop where
  sqe128_iff : ring.params.flags &&& Sys.ioringSetupSqe128 ≠ 0 ↔ S = .entry128
  cqe32_iff : ring.params.flags &&& Sys.ioringSetupCqe32 ≠ 0 ↔ C = .entry32
  push : ∀ tail, ring.sq.entryOffset S tail =
    ring.sq.sqes + (tail &&& ring.sq.ringMask).toNat * sqeStride ring.params
  pop : ∀ head, ring.cq.entryOffset C head =
    ring.cq.cqes + (head &&& ring.cq.ringMask).toNat * cqeStride ring.params

/-- The strides follow from the flags. -/
theorem Instance.SizesAgree.of_flags {ring : Instance S C}
    (hsq : ring.params.flags &&& Sys.ioringSetupSqe128 ≠ 0 ↔ S = .entry128)
    (hcq : ring.params.flags &&& Sys.ioringSetupCqe32 ≠ 0 ↔ C = .entry32) :
    ring.SizesAgree := by
  have hsqe : sqeStride ring.params = S.size := by
    unfold sqeStride
    cases S with
    | entry =>
        rw [if_neg fun hbit => absurd (hsq.mp (bne_iff_ne.mp hbit)) nofun]
        rfl
    | entry128 =>
        rw [if_pos (bne_iff_ne.mpr (hsq.mpr rfl))]
        rfl
  have hcqe : cqeStride ring.params = C.size := by
    unfold cqeStride
    cases C with
    | entry =>
        rw [if_neg fun hbit => absurd (hcq.mp (bne_iff_ne.mp hbit)) nofun]
        rfl
    | entry32 =>
        rw [if_pos (bne_iff_ne.mpr (hcq.mpr rfl))]
        rfl
  exact ⟨hsq, hcq, fun tail => by rw [hsqe, Squeue.RawInner.entryOffset],
    fun head => by rw [hcqe, Cqueue.RawInner.entryOffset]⟩

/-- The flag that a call of the builder adds. -/
def BuilderCall.flag : BuilderCall → UInt32
  | dontfork => 0
  | setupIopoll => Sys.ioringSetupIopoll
  | setupSqpoll _ => Sys.ioringSetupSqpoll
  | setupSqpollCpu _ => Sys.ioringSetupSqAff
  | setupCqsize _ => Sys.ioringSetupCqsize
  | setupClamp => Sys.ioringSetupClamp
  | setupAttachWq _ => Sys.ioringSetupAttachWq
  | setupRDisabled => Sys.ioringSetupRDisabled
  | setupSubmitAll => Sys.ioringSetupSubmitAll
  | setupCoopTaskrun => Sys.ioringSetupCoopTaskrun
  | setupTaskrunFlag => Sys.ioringSetupTaskrunFlag
  | setupDeferTaskrun => Sys.ioringSetupDeferTaskrun
  | setupSingleIssuer => Sys.ioringSetupSingleIssuer
  | setupNoSqarray => Sys.ioringSetupNoSqarray

theorem Builder.apply_flags (b : Builder S C) (call : BuilderCall) :
    (b.apply call).params.flags = b.params.flags ||| call.flag := by
  cases call with
  | dontfork => exact UInt32.or_zero.symm
  | _ => rfl

/-- A mask of the two bits for entry sizes. -/
def sizeFlags : UInt32 := Sys.ioringSetupSqe128 ||| Sys.ioringSetupCqe32

/-- No call of the builder touches the entry sizes. -/
theorem BuilderCall.flag_and_sizeFlags (call : BuilderCall) : call.flag &&& sizeFlags = 0 := by
  cases call <;> simp only [flag] <;> decide

theorem Builder.applyAll_flags (b : Builder S C) (calls : List BuilderCall) :
    (calls.foldl Builder.apply b).params.flags &&& sizeFlags = b.params.flags &&& sizeFlags := by
  induction calls generalizing b with
  | nil => rfl
  | cons call rest ih =>
      rw [List.foldl_cons, ih, apply_flags, Foundation.and_or_distrib_right₃₂,
        call.flag_and_sizeFlags, UInt32.or_zero]

/-- The constructor requests the ring itself, or is given one with small entries. -/
def Constructor.fits : Constructor S C → Prop
  | .new _ | .builder _ _ => True
  | .fromFd _ params => params.flags &&& sizeFlags = 0

/-- The kernel hands the two bits back as they were requested. -/
def Kernel.KeepsSizes (kernel : Kernel) : Prop :=
  ∀ entries p fd p', kernel.setup entries p = .ok (fd, p') →
    p'.flags &&& sizeFlags = p.flags &&& sizeFlags

/-- A word with the same masked bits has the same single bits. -/
theorem and_eq_of_sizeFlags {x y bit : UInt32} (h : x &&& sizeFlags = y &&& sizeFlags)
    (hbit : sizeFlags &&& bit = bit) : x &&& bit = y &&& bit := by
  rw [← hbit, ← UInt32.and_assoc, ← UInt32.and_assoc, h]

variable {kernel : Kernel} {ring : Instance S C}

theorem withFdAndParams_params {fd : Int32} {p : Parameters}
    (h : withFdAndParams S C kernel fd p = some (.ok ring)) : ring.params = p := by
  unfold withFdAndParams at h
  obtain ⟨result, -, hresult⟩ := Option.bind_eq_some_iff.mp h
  split at hresult
  · cases hresult
  · cases hresult
    rfl

theorem withParams_flags (keeps : kernel.KeepsSizes) {entries : UInt32} {p : Parameters}
    (h : withParams S C kernel entries p = some (.ok ring)) :
    ring.params.flags &&& sizeFlags = p.flags &&& sizeFlags := by
  unfold withParams at h
  split at h
  · cases h
  · rename_i fd p' hsetup
    rw [withFdAndParams_params h]
    exact keeps _ _ _ _ hsetup

/-- The ring that `build` returns is the one that `with_params` made. -/
theorem of_build {b : Builder S C} {entries : UInt32}
    (h : b.build kernel entries = some (.ok ring)) :
    withParams S C kernel entries b.params = some (.ok ring) := by
  obtain ⟨result, hresult, h⟩ := Option.bind_eq_some_iff.mp h
  split at h
  · cases h
  · split at h
    · cases hadvise : Builder.adviseDontfork kernel _ with
      | error errno =>
          rw [hadvise] at h
          cases h
      | ok =>
          rw [hadvise] at h
          cases h
          exact hresult
    · cases h
      exact hresult

theorem build_flags (keeps : kernel.KeepsSizes) (calls : List BuilderCall) {entries : UInt32}
    (h : (calls.foldl Builder.apply (builder S C)).build kernel entries = some (.ok ring)) :
    ring.params.flags &&& sizeFlags = (S.buildFlags ||| C.buildFlags) &&& sizeFlags := by
  rw [withParams_flags keeps (of_build h), Builder.applyAll_flags]
  rfl

/-- A ring with the flags that `builder` requested. -/
theorem Instance.SizesAgree.of_buildFlags
    (h : ring.params.flags &&& sizeFlags = (S.buildFlags ||| C.buildFlags) &&& sizeFlags) :
    ring.SizesAgree := by
  apply Instance.SizesAgree.of_flags
  · rw [and_eq_of_sizeFlags h (by decide)]
    cases S <;> cases C <;> decide
  · rw [and_eq_of_sizeFlags h (by decide)]
    cases S <;> cases C <;> decide

/-- Entry types and entry sizes agree in every ring that the public functions return, except
in those that `from_fd` makes of a ring with large entries of either kind. -/
theorem sizes_agree_iff (keeps : kernel.KeepsSizes) (c : Constructor S C)
    (h : c.run kernel = some (.ok ring)) : ring.SizesAgree ↔ c.fits := by
  cases c with
  | new entries => exact iff_of_true (.of_buildFlags (build_flags keeps [] h)) trivial
  | builder calls entries => exact iff_of_true (.of_buildFlags (build_flags keeps calls h)) trivial
  | fromFd fd params =>
      have hparams : ring.params = params := withFdAndParams_params h
      constructor
      · intro hagree
        have hsq := hagree.sqe128_iff.not.mpr nofun
        have hcq := hagree.cqe32_iff.not.mpr nofun
        rw [Constructor.fits, sizeFlags, ← hparams, Foundation.and_or_distrib_left₃₂,
          not_not.mp hsq, not_not.mp hcq]
        rfl
      · intro hfits
        apply Instance.SizesAgree.of_buildFlags
        rw [hparams, show params.flags &&& sizeFlags = 0 from hfits]
        decide

/-- A ring with large submission entries and a handful of setters. -/
theorem sizes_agree_iff_entry128 :
    ∃ ring : Instance .entry128 .entry,
      (Constructor.builder [.setupCqsize 4, .setupClamp, .dontfork] 2).run smallKernel =
          some (.ok ring) ∧ ring.SizesAgree := by
  have keeps : smallKernel.KeepsSizes := by
    intro entries p fd p' hsetup
    cases hsetup
    rfl
  let c : Constructor .entry128 .entry := .builder [.setupCqsize 4, .setupClamp, .dontfork] 2
  have returns : (c.run smallKernel).map (Except.map fun _ => ()) = some (.ok ()) := by
    decide +kernel
  obtain ⟨ring, hring, -⟩ := of_map_ok returns
  exact ⟨ring, hring, (sizes_agree_iff keeps c hring).mpr trivial⟩

/-- `from_fd` on the descriptor and the parameters of a ring with large submission entries
gives one whose `push` uses half the stride. -/
theorem fromFd_half_stride :
    ∃ (ring : Instance .entry128 .entry) (ring' : Instance .entry .entry),
      (Constructor.builder [] 2).run smallKernel = some (.ok ring) ∧
        (Constructor.fromFd ring.fd ring.params).run smallKernel = some (.ok ring') ∧
        ¬ ring'.SizesAgree ∧ ring'.sq.entryOffset .entry 1 = 64 ∧
        sqeStride ring'.params = 128 := by
  let c : Constructor .entry128 .entry := .builder [] 2
  let params := { smallParams with flags := Sys.ioringSetupSqe128 }
  have returns : (c.run smallKernel).map (Except.map fun ring => (ring.fd, ring.params)) =
      some (.ok (3, params)) := by decide +kernel
  obtain ⟨ring, hring, hfields⟩ := of_map_ok returns
  obtain ⟨hfd, hparams⟩ := Prod.mk.inj hfields
  have returns' : ((Constructor.fromFd 3 params).run smallKernel).map
      (Except.map fun ring => (ring.sq.entryOffset .entry 1, sqeStride ring.params)) =
        some (.ok (64, 128)) := by decide +kernel
  obtain ⟨ring', hring', hstrides⟩ := of_map_ok returns'
  obtain ⟨hoffset, hstride⟩ := Prod.mk.inj hstrides
  refine ⟨ring, ring', hring, by rw [hfd, hparams, hring'], ?_, hoffset, hstride⟩
  intro hagree
  have hbit : ring'.params.flags &&& Sys.ioringSetupSqe128 ≠ 0 := by
    rw [withFdAndParams_params hring']
    decide
  exact nomatch hagree.sqe128_iff.mp hbit

end IoUring.Ring
