import IoUring.Foundation.Ownership
import IoUring.Ring.Builder

/-!
# The resources of a ring

Building a ring acquires a descriptor and two or three mappings, and every
system call on the way may fail. Here the construction runs with the scopes of
its values, so that a ledger can follow what each outcome acquires and releases.
The two `Inner`s borrow from the mappings and own nothing; they are left to
`Ring.Instance`.
-/

namespace IoUring.Ring.Owned

open Foundation

inductive Resource where
  | fd (fd : Int32)
  | mapping (addr len : UInt64)
  deriving DecidableEq

/-- What the operating system answers to a system call, which has a number and arguments. -/
structure System where
  ioUringSetup : Nat → UInt32 → Parameters → Except Int32 (Int32 × Parameters)
  mmap : Nat → Int32 → UInt64 → UInt64 → Except Int32 UInt64
  madvise : Nat → UInt64 → UInt64 → Except Int32 Unit

abbrev Syscalls (α : Type) := Program System Resource Int32 α

instance : Owner Resource Unit where
  releases _ := []

structure OwnedFd where
  fd : Int32
  deriving DecidableEq

/-- `close`. -/
instance : Owner Resource OwnedFd where
  releases fd := [.fd fd.fd]

structure Mmap where
  addr : UInt64
  len : UInt64
  deriving DecidableEq

namespace Mmap

/-- `munmap`. -/
instance : Owner Resource Mmap where
  releases m := [.mapping m.addr m.len]

def new (fd : OwnedFd) (offset len : UInt64) : Syscalls Mmap :=
  Program.call fun os n => (os.mmap n fd.fd offset len).map fun addr => { addr, len }

def dontfork (m : Mmap) : Syscalls Unit :=
  Program.call fun os n => os.madvise n m.addr m.len

end Mmap

structure MemoryMap where
  sqMmap : Mmap
  sqeMmap : Mmap
  cqMmap : Option Mmap
  deriving DecidableEq

namespace MemoryMap

def mmaps (memory : MemoryMap) : List Mmap :=
  memory.sqMmap :: memory.sqeMmap :: memory.cqMmap.toList

/-- The fields are dropped in the order of their declaration. -/
instance : Owner Resource MemoryMap where
  releases memory := releases memory.sqMmap ++ (releases memory.sqeMmap ++
    match memory.cqMmap with
    | some cqMmap => releases cqMmap
    | none => [])

end MemoryMap

structure ManuallyDrop (α : Type) where
  value : α
  deriving DecidableEq

instance {α : Type} : Owner Resource (ManuallyDrop α) where
  releases _ := []

/-- The fields of an `IoUring` behind the two `Inner`s. -/
structure Instance (S : Squeue.EntryType) (C : Cqueue.EntryType) where
  fd : OwnedFd
  params : Parameters
  memory : ManuallyDrop MemoryMap
  deriving DecidableEq

variable {S : Squeue.EntryType} {C : Cqueue.EntryType}

/-- `Drop::drop` releases `memory` by hand; the fields follow, as declared. -/
instance : Owner Resource (Instance S C) where
  releases ring := releases ring.memory.value ++ (releases ring.fd ++ releases ring.memory)

/-- `io_uring_setup`; only the descriptor of its answer owns something. -/
instance : Owner Resource (OwnedFd × Parameters) where
  releases answer := releases answer.1

def ioUringSetup (entries : UInt32) (p : Parameters) : Syscalls (OwnedFd × Parameters) :=
  Program.call fun os n => (os.ioUringSetup n entries p).map fun (fd, p) => (⟨fd⟩, p)

variable (S C)

def setupQueue (fd : OwnedFd) (p : Parameters) : Syscalls MemoryMap := do
  let sqeMmap ← Mmap.new fd Sys.ioringOffSqes (p.sqeLen S)
  Program.holding sqeMmap do
    if p.isFeatureSingleMmap then
      let scqMmap ← Mmap.new fd Sys.ioringOffSqRing (max p.sqLen (p.cqLen C))
      pure { sqMmap := scqMmap, sqeMmap, cqMmap := none }
    else
      let sqMmap ← Mmap.new fd Sys.ioringOffSqRing p.sqLen
      Program.holding sqMmap do
        let cqMmap ← Mmap.new fd Sys.ioringOffCqRing (p.cqLen C)
        pure { sqMmap, sqeMmap, cqMmap := some cqMmap }

/-- The descriptor is the function's own until the ring takes it. -/
def withFdAndParams (fd : OwnedFd) (p : Parameters) : Syscalls (Instance S C) :=
  Program.holding fd do
    let mm ← setupQueue S C fd p
    pure { fd, params := p, memory := ⟨mm⟩ }

def withParams (entries : UInt32) (p : Parameters) : Syscalls (Instance S C) := do
  let (fd, p) ← ioUringSetup entries p
  withFdAndParams S C fd p

variable {S C}

/-- The `madvise` calls of `build`. -/
def adviseDontfork (memory : MemoryMap) : Syscalls Unit := do
  memory.sqMmap.dontfork
  memory.sqeMmap.dontfork
  match memory.cqMmap with
  | some cqMmap => cqMmap.dontfork
  | none => pure ()

/-- `Builder::build`. -/
def build (b : Builder S C) (entries : UInt32) : Syscalls (Instance S C) := do
  let ring ← withParams S C entries b.params
  Program.holding ring do
    if b.dontfork then
      adviseDontfork ring.memory.value
    pure ring

/-- `IoUring::from_fd`, which takes ownership of the descriptor. -/
def fromFd (fd : Int32) (params : Parameters) : Syscalls (Instance .entry .entry) :=
  withFdAndParams .entry .entry ⟨fd⟩ params

/-! ## Every outcome -/

/-- The completion ring has a mapping of its own unless the kernel offers a single one. -/
def Instance.Complete (ring : Instance S C) : Prop :=
  ring.memory.value.cqMmap.isNone = ring.params.isFeatureSingleMmap

theorem Mmap.new_keeps (fd : OwnedFd) (offset len : UInt64) :
    Keeps 0 (Mmap.new fd offset len) fun m left => m.len = len ∧ left = releases m := by
  apply Keeps.call
  intro os n m h
  cases hanswer : os.mmap n fd.fd offset len with
  | error e =>
      rw [hanswer] at h
      cases h
  | ok addr =>
      rw [hanswer] at h
      cases h
      exact ⟨rfl, rfl⟩

theorem setupQueue_keeps (fd : OwnedFd) (p : Parameters) :
    Keeps 0 (setupQueue S C fd p) fun mm left =>
      mm.cqMmap.isNone = p.isFeatureSingleMmap ∧ left = releases mm := by
  apply (Mmap.new_keeps fd _ _).scope
  intro sqeMmap _
  split
  · rename_i hsingle
    apply (Mmap.new_keeps fd _ _).bind
    rintro scqMmap left ⟨-, rfl⟩
    apply Keeps.pure
    exact ⟨hsingle.symm, Multiset.add_comm _ _⟩
  · rename_i hsplit
    apply (Mmap.new_keeps fd _ _).scope
    intro sqMmap _
    apply (Mmap.new_keeps fd _ _).bind
    rintro cqMmap left ⟨-, rfl⟩
    apply Keeps.pure
    exact ⟨(Bool.eq_false_of_not_eq_true hsplit).symm, Multiset.coe_eq_coe.mpr (.swap _ _ _)⟩

/-- The descriptor that the function is given ends up in the ring or is closed. -/
theorem withFdAndParams_keeps (fd : OwnedFd) (p : Parameters) :
    Keeps (releases fd : Multiset Resource) (withFdAndParams S C fd p) fun ring left =>
      ring.Complete ∧ left = releases ring := by
  rw [← Multiset.add_zero (releases fd : Multiset Resource)]
  apply Keeps.holding
  apply (setupQueue_keeps fd p).bind
  rintro mm left ⟨hmode, rfl⟩
  apply Keeps.pure
  exact ⟨hmode, Multiset.add_comm _ _⟩

theorem withParams_keeps (entries : UInt32) (p : Parameters) :
    Keeps 0 (withParams S C entries p) fun ring left => ring.Complete ∧ left = releases ring := by
  have hsetup : Keeps 0 (ioUringSetup entries p) fun answer left => left = releases answer :=
    Keeps.call fun _ _ _ _ => rfl
  apply hsetup.bind
  rintro ⟨fd, p⟩ left rfl
  exact withFdAndParams_keeps fd p

theorem adviseDontfork_keeps (memory : MemoryMap) :
    Keeps 0 (adviseDontfork memory) fun _ left => left = 0 := by
  have hadvise (m : Mmap) : Keeps 0 m.dontfork fun _ left => left = 0 :=
    Keeps.call fun _ _ _ _ => rfl
  apply (hadvise memory.sqMmap).bind
  rintro _ left rfl
  apply (hadvise memory.sqeMmap).bind
  rintro _ left rfl
  split
  · exact hadvise _
  · exact Keeps.pure rfl

theorem build_keeps (b : Builder S C) (entries : UInt32) :
    Keeps 0 (build b entries) fun ring left => ring.Complete ∧ left = releases ring := by
  apply (withParams_keeps entries b.params).scope
  intro ring hcomplete
  split
  · apply (adviseDontfork_keeps ring.memory.value).bind
    rintro _ left rfl
    apply Keeps.pure
    exact ⟨hcomplete, Multiset.add_zero _⟩
  · apply Keeps.pure
    exact ⟨hcomplete, Multiset.add_zero _⟩

theorem MemoryMap.releases_eq (memory : MemoryMap) :
    releases memory = memory.mmaps.map fun m => .mapping m.addr m.len := by
  rcases memory with ⟨sqMmap, sqeMmap, _ | cqMmap⟩ <;> rfl

theorem Instance.releases_eq (ring : Instance S C) :
    releases ring = releases ring.memory.value ++ [.fd ring.fd.fd] := rfl

theorem Instance.Complete.length_mmaps {ring : Instance S C} (h : ring.Complete) :
    ring.memory.value.mmaps.length = if ring.params.isFeatureSingleMmap then 2 else 3 := by
  rw [← show _ = _ from h, MemoryMap.mmaps]
  cases ring.memory.value.cqMmap <;> rfl

/-- A ring's descriptor and its mappings, in the ledger of the whole process. -/
def Instance.resources (ring : Instance S C) : Multiset Resource :=
  .fd ring.fd.fd ::ₘ (ring.memory.value.mmaps.map fun m => Resource.mapping m.addr m.len)

theorem Instance.releases_eq_resources (ring : Instance S C) :
    (releases ring : Multiset Resource) = ring.resources := by
  rw [releases_eq, MemoryMap.releases_eq, resources]
  exact Multiset.coe_eq_coe.mpr (List.perm_append_singleton _ _)

/-- An outcome leaves nothing of the ring in the ledger if it is an error. Otherwise it leaves
the descriptor and two or three mappings, which dropping the ring releases whenever it
happens, the descriptor last. -/
def Settles (start before : Multiset Resource) (outcome : Outcome Resource Int32 (Instance S C)) :
    Prop :=
  match outcome.result with
  | .error _ => ledgerAfter hold (some start) outcome.effects = some before
  | .ok ring =>
      ring.memory.value.mmaps.length = (if ring.params.isFeatureSingleMmap then 2 else 3) ∧
        ledgerAfter hold (some start) outcome.effects = some (ring.resources + before) ∧
        releases ring =
          (ring.memory.value.mmaps.map fun m => .mapping m.addr m.len) ++ [.fd ring.fd.fd] ∧
        ∀ others, ledgerAfter hold (some (ring.resources + others))
          ((releases ring).map .released) = some others

theorem Settles.of_keeps {own : Multiset Resource} {x : Syscalls (Instance S C)}
    (h : Keeps own x fun ring left => ring.Complete ∧ left = releases ring) (os : System)
    (n : Nat) (before : Multiset Resource) : Settles (own + before) before (x os n) := by
  obtain ⟨left, hledger, hleft⟩ := h os n before
  unfold Settles
  split
  · rename_i errno hresult
    rw [hresult] at hleft
    rw [hledger, show left = 0 from hleft, Multiset.zero_add]
  · rename_i ring hresult
    rw [hresult] at hleft
    obtain ⟨hcomplete, rfl⟩ := hleft
    refine ⟨hcomplete.length_mmaps, ?_, ?_, ?_⟩
    · rw [hledger, ring.releases_eq_resources]
    · rw [ring.releases_eq, MemoryMap.releases_eq]
    · intro others
      rw [← ring.releases_eq_resources]
      exact ledgerAfter_released (releases ring)

/-- Whatever the system calls answer, building a ring or taking one over neither leaks nor
releases twice. -/
theorem resources_settled (os : System) (n : Nat) (before : Multiset Resource) :
    (∀ (b : Builder S C) (entries : UInt32), Settles before before (build b entries os n)) ∧
      ∀ (fd : Int32) (params : Parameters),
        Settles (.fd fd ::ₘ before) before (fromFd fd params os n) := by
  constructor
  · intro b entries
    have hsettles := Settles.of_keeps (build_keeps b entries) os n before
    rwa [Multiset.zero_add] at hsettles
  · intro fd params
    exact Settles.of_keeps (withFdAndParams_keeps ⟨fd⟩ params) os n before

/-- A third mapping that is refused: the other two are unmapped, the later first, and the
descriptor is closed. -/
example :
    let os : System :=
      { ioUringSetup := fun _ _ p => .ok (3, { p with sqEntries := 2, cqEntries := 4 })
        mmap := fun n _ _ _ => if n = 3 then .error 12 else .ok (.ofNat (4096 * n))
        madvise := fun _ _ _ => .ok () }
    (build (builder .entry .entry) 2 os 0).effects =
      [.acquired (.fd 3), .acquired (.mapping 4096 128), .acquired (.mapping 8192 8),
        .released (.mapping 8192 8), .released (.mapping 4096 128), .released (.fd 3)] := by
  decide

/-! ## The construction of `Ring.Setup` -/

/-- An address for the mapping at an offset; it is not null. -/
def place (offset : UInt64) : UInt64 := offset + 4096

/-- The system calls answered as `kernel` does. Advice is given about the mapping of `memory`
that the address tells. -/
def System.ofKernel (kernel : Kernel) (memory : Ring.MemoryMap) : System where
  ioUringSetup _ := kernel.setup
  mmap _ fd offset len := (kernel.mmap fd offset len).map fun _ => place offset
  madvise _ addr _ :=
    kernel.madvise <|
      if addr = place Sys.ioringOffSqes then memory.sqeMmap
      else if addr = place Sys.ioringOffCqRing then memory.cq
      else memory.sqMmap

def Mmap.ofBytes (offset : UInt64) (m : IoUring.Mmap) : Mmap := ⟨place offset, .ofNat m.len⟩

def MemoryMap.ofBytes (memory : Ring.MemoryMap) : MemoryMap where
  sqMmap := .ofBytes Sys.ioringOffSqRing memory.sqMmap
  sqeMmap := .ofBytes Sys.ioringOffSqes memory.sqeMmap
  cqMmap := memory.cqMmap.map (.ofBytes Sys.ioringOffCqRing)

def Instance.ofRing (ring : Ring.Instance S C) : Instance S C where
  fd := ⟨ring.fd⟩
  params := ring.params
  memory := ⟨.ofBytes ring.memory⟩

variable {kernel : Kernel}

theorem Mmap.ofBytes_congr {offset : UInt64} {m m' : IoUring.Mmap} (h : m.len = m'.len) :
    Mmap.ofBytes offset m = .ofBytes offset m' := by
  rw [ofBytes, ofBytes, h]

section Agreement

variable (memory : Ring.MemoryMap) (n : Nat)

theorem Mmap.new_ofKernel (fd : Int32) (offset len : UInt64) :
    (Mmap.new ⟨fd⟩ offset len (.ofKernel kernel memory) n).result =
      (kernel.mmap fd offset len).map fun m => .ofBytes offset m.val := by
  rw [Mmap.new, Program.result_call]
  cases hanswer : kernel.mmap fd offset len with
  | error errno => simp only [System.ofKernel, hanswer, Except.map]
  | ok m =>
      simp only [System.ofKernel, hanswer, Except.map]
      rw [ofBytes, m.property, UInt64.ofNat_toNat]

theorem setupQueue_ofKernel {fd : Int32} {p : Parameters}
    {outcome : Except Int32 (Ring.MemoryMap × Squeue.RawInner × Cqueue.RawInner)}
    (h : Ring.setupQueue S C kernel fd p = some outcome) :
    (setupQueue S C ⟨fd⟩ p (.ofKernel kernel memory) n).result =
      outcome.map fun made => .ofBytes made.1 := by
  unfold Ring.setupQueue at h
  rw [setupQueue, Program.result_bind, Mmap.new_ofKernel]
  cases hsqe : kernel.mmap fd Sys.ioringOffSqes (p.sqeLen S) with
  | error errno =>
      rw [hsqe] at h
      cases h
      rfl
  | ok sqeMmap =>
      rw [hsqe] at h
      simp only [Except.map, Except.bind, Program.result_holding]
      cases hmode : p.isFeatureSingleMmap with
      | true =>
          simp only [hmode, if_true] at h ⊢
          rw [Program.result_bind, Mmap.new_ofKernel]
          cases hscq : kernel.mmap fd Sys.ioringOffSqRing (max p.sqLen (p.cqLen C)) with
          | error errno =>
              rw [hscq] at h
              cases h
              rfl
          | ok scqMmap =>
              rw [hscq] at h
              obtain ⟨⟨sq, m⟩, hsq, h⟩ := Option.bind_eq_some_iff.mp h
              obtain ⟨cq, -, h⟩ := Option.bind_eq_some_iff.mp h
              cases h
              simp only [Except.map, Except.bind, Program.result_pure, MemoryMap.ofBytes]
              rw [Mmap.ofBytes_congr (Squeue.RawInner.new_len hsq)]
              rfl
      | false =>
          simp only [hmode, Bool.false_eq_true, if_false] at h ⊢
          rw [Program.result_bind, Mmap.new_ofKernel]
          cases hsq : kernel.mmap fd Sys.ioringOffSqRing p.sqLen with
          | error errno =>
              rw [hsq] at h
              cases h
              rfl
          | ok sqMmap =>
              simp only [hsq] at h
              simp only [Except.map, Except.bind, Program.result_holding]
              rw [Program.result_bind, Mmap.new_ofKernel]
              cases hcq : kernel.mmap fd Sys.ioringOffCqRing (p.cqLen C) with
              | error errno =>
                  rw [hcq] at h
                  cases h
                  rfl
              | ok cqMmap =>
                  rw [hcq] at h
                  obtain ⟨⟨sq, m⟩, hnew, h⟩ := Option.bind_eq_some_iff.mp h
                  obtain ⟨cq, -, h⟩ := Option.bind_eq_some_iff.mp h
                  cases h
                  simp only [Except.map, Except.bind, Program.result_pure, MemoryMap.ofBytes]
                  rw [Mmap.ofBytes_congr (Squeue.RawInner.new_len hnew)]
                  rfl

theorem withFdAndParams_ofKernel {fd : Int32} {p : Parameters}
    {outcome : Except Int32 (Ring.Instance S C)}
    (h : Ring.withFdAndParams S C kernel fd p = some outcome) :
    (withFdAndParams S C ⟨fd⟩ p (.ofKernel kernel memory) n).result = outcome.map .ofRing := by
  obtain ⟨made, hmade, h⟩ := Option.bind_eq_some_iff.mp h
  rw [withFdAndParams, Program.result_holding, Program.result_bind,
    setupQueue_ofKernel memory n hmade]
  cases made with
  | error errno =>
      cases h
      rfl
  | ok made =>
      cases h
      rfl

theorem withParams_ofKernel {entries : UInt32} {p : Parameters}
    {outcome : Except Int32 (Ring.Instance S C)}
    (h : Ring.withParams S C kernel entries p = some outcome) :
    (withParams S C entries p (.ofKernel kernel memory) n).result = outcome.map .ofRing := by
  unfold Ring.withParams at h
  rw [withParams, Program.result_bind, ioUringSetup, Program.result_call]
  cases hsetup : kernel.setup entries p with
  | error errno =>
      rw [hsetup] at h
      cases h
      simp only [System.ofKernel, hsetup]
      rfl
  | ok answer =>
      rw [hsetup] at h
      simp only [System.ofKernel, hsetup, Except.map, Except.bind]
      exact withFdAndParams_ofKernel memory _ h

/-- Each mapping is advised on as itself. -/
theorem adviseDontfork_ofKernel :
    (adviseDontfork (.ofBytes memory) (.ofKernel kernel memory) n).result =
      Builder.adviseDontfork kernel memory := by
  have hsq (n : Nat) (m : IoUring.Mmap) : ((Mmap.ofBytes Sys.ioringOffSqRing m).dontfork
      (.ofKernel kernel memory) n).result = kernel.madvise memory.sqMmap :=
    Program.result_call _
  have hsqe (n : Nat) (m : IoUring.Mmap) : ((Mmap.ofBytes Sys.ioringOffSqes m).dontfork
      (.ofKernel kernel memory) n).result = kernel.madvise memory.sqeMmap :=
    Program.result_call _
  have hcq (n : Nat) (m : IoUring.Mmap) : ((Mmap.ofBytes Sys.ioringOffCqRing m).dontfork
      (.ofKernel kernel memory) n).result = kernel.madvise memory.cq :=
    Program.result_call _
  rw [adviseDontfork, Program.result_bind, MemoryMap.ofBytes, hsq]
  simp only [Program.result_bind, hsqe]
  cases hmap : memory.cqMmap with
  | none =>
      simp only [Builder.adviseDontfork, hmap, Option.map_none, Program.result_pure]
      rfl
  | some cqMmap =>
      have hcq_eq : memory.cq = cqMmap := by
        rw [MemoryMap.cq, hmap, Option.getD_some]
      simp only [Builder.adviseDontfork, hmap, Option.map_some, hcq, hcq_eq]
      rfl

end Agreement

/-- An outcome of `Builder::build` with the bytes of the mappings is one with their scopes. -/
theorem build_ofKernel {b : Builder S C} {entries : UInt32}
    {outcome : Except Int32 (Ring.Instance S C)} (h : b.build kernel entries = some outcome) :
    ∃ memory, (build b entries (.ofKernel kernel memory) 0).result = outcome.map .ofRing := by
  obtain ⟨made, hmade, h⟩ := Option.bind_eq_some_iff.mp h
  cases made with
  | error errno =>
      refine ⟨⟨⟨[]⟩, ⟨[]⟩, none⟩, ?_⟩
      rw [build, Program.result_bind, withParams_ofKernel _ 0 hmade]
      cases h
      rfl
  | ok ring =>
      refine ⟨ring.memory, ?_⟩
      rw [build, Program.result_bind, withParams_ofKernel ring.memory 0 hmade]
      simp only [Except.map, Except.bind, Program.result_holding]
      cases hdontfork : b.dontfork with
      | true =>
          simp only [hdontfork, if_true, Option.some.injEq] at h ⊢
          rw [Program.result_bind, ← h]
          simp only [Instance.ofRing, adviseDontfork_ofKernel]
          cases Builder.adviseDontfork kernel ring.memory <;> rfl
      | false =>
          simp only [hdontfork, Bool.false_eq_true, if_false, Option.some.injEq] at h ⊢
          rw [← h]
          rfl

end IoUring.Ring.Owned
