import IoUring.Foundation.FlagWord
import IoUring.Opcode.Control
import IoUring.Submit.Register
import IoUring.Timespec

/-!
# What a cancellation looks for

The same `CancelBuilder` is encoded into an entry and into the argument of a
register call. Both hold its criterion in three numbers, from which it can be
read back: absent fields become numbers that are legal themselves, and the flag
bits tell these apart.
-/

namespace IoUring.Submit

open Opcode Squeue IoUring.Types

/-- The argument of the function that starts a `CancelBuilder`. -/
inductive Criterion where
  | any
  | userData (userData : UInt64)
  | fd (target : Target)
  deriving DecidableEq

namespace Criterion

def start : Criterion → CancelBuilder
  | .any => .any
  | .userData key => .ofUserData key
  | .fd target => .ofFd target

/-- The builder after some number of calls of `all`. -/
def builder (criterion : Criterion) : Nat → CancelBuilder
  | 0 => criterion.start
  | calls + 1 => (criterion.builder calls).all

end Criterion

/-- A second call of `all` does nothing. -/
theorem all_all (builder : CancelBuilder) : builder.all.all = builder.all := by
  have hflags : (builder.flags ||| Sys.ioringAsyncCancelAll) ||| Sys.ioringAsyncCancelAll =
      builder.flags ||| Sys.ioringAsyncCancelAll := by
    rw [UInt32.or_assoc, UInt32.or_self]
  exact congrArg (fun flags => { builder with flags }) hflags

/-- All that matters of the calls of `all` is whether there was one. -/
theorem Criterion.builder_succ (criterion : Criterion) (calls : Nat) :
    criterion.builder (calls + 1) = criterion.start.all := by
  induction calls with
  | zero => rfl
  | succ calls ih =>
      calc
        criterion.builder (calls + 2) = (criterion.builder (calls + 1)).all := rfl
        _ = criterion.start.all.all := by rw [ih]
        _ = criterion.start.all := all_all _

/-- The three numbers that describe what to cancel. -/
structure CancelKey where
  flags : UInt32
  fd : Int32
  userData : UInt64
  deriving DecidableEq

namespace CancelKey

def ofSqe (sqe : Sqe) : CancelKey where
  flags := sqe.opFlags
  fd := sqe.fd
  userData := sqe.addr

def ofArg : RegisterArg → Option CancelKey
  | .syncCancel addr fd flags _ _ _ => some { flags, fd, userData := addr }
  | _ => none

/-- The numbers that a builder comes to on either path. -/
def ofBuilder (builder : CancelBuilder) : CancelKey where
  flags := builder.flags
  fd := builder.toFd
  userData := builder.userData.getD 0

/-- The criterion that the numbers stand for. -/
def criterion (key : CancelKey) : Criterion :=
  if key.flags &&& Sys.ioringAsyncCancelAny ≠ 0 then .any
  else if key.flags &&& Sys.ioringAsyncCancelFd ≠ 0 then
    if key.flags &&& Sys.ioringAsyncCancelFdFixed ≠ 0 then .fd (.fixed key.fd.toUInt32)
    else .fd (.fd key.fd)
  else .userData key.userData

/-- Every match is meant and not the first one only. -/
def isAll (key : CancelKey) : Bool := decide (key.flags &&& Sys.ioringAsyncCancelAll ≠ 0)

end CancelKey

/-- The bits that each criterion starts from. -/
theorem flags_start (criterion : Criterion) :
    criterion.start.flags =
      match criterion with
      | .any => Sys.ioringAsyncCancelAny
      | .userData _ => 0
      | .fd (.fd _) => Sys.ioringAsyncCancelFd
      | .fd (.fixed _) => Sys.ioringAsyncCancelFd ||| Sys.ioringAsyncCancelFdFixed := by
  match criterion with
  | .any => rfl
  | .userData _ => rfl
  | .fd (.fd _) => rfl
  | .fd (.fixed _) => rfl

theorem isAll_start (criterion : Criterion) :
    (CancelKey.ofBuilder criterion.start).isAll = false := by
  have hflags : criterion.start.flags &&& Sys.ioringAsyncCancelAll = 0 := by
    rw [flags_start]
    split <;> decide
  exact decide_eq_false (fun hne => hne hflags)

theorem isAll_all (builder : CancelBuilder) : (CancelKey.ofBuilder builder.all).isAll = true := by
  have hflags : builder.all.flags &&& Sys.ioringAsyncCancelAll = Sys.ioringAsyncCancelAll :=
    Foundation.or_and_self₃₂ _ _
  apply decide_eq_true
  intro hzero
  rw [CancelKey.ofBuilder, hflags] at hzero
  exact absurd hzero (by decide)

theorem criterion_start (criterion : Criterion) :
    (CancelKey.ofBuilder criterion.start).criterion = criterion := by
  match criterion with
  | .any => rfl
  | .userData _ =>
      simp [CancelKey.criterion, CancelKey.ofBuilder, Criterion.start, CancelBuilder.ofUserData]
  | .fd (.fd _) =>
      simp +decide [CancelKey.criterion, CancelKey.ofBuilder, Criterion.start, CancelBuilder.ofFd,
        CancelBuilder.toFd, Target.isFixed, Sys.ioringAsyncCancelFd, Sys.ioringAsyncCancelAny,
        Sys.ioringAsyncCancelFdFixed]
  | .fd (.fixed _) =>
      simp +decide [CancelKey.criterion, CancelKey.ofBuilder, Criterion.start, CancelBuilder.ofFd,
        CancelBuilder.toFd, Target.isFixed, Sys.ioringAsyncCancelFd, Sys.ioringAsyncCancelAny,
        Sys.ioringAsyncCancelFdFixed]

/-- The bit of `all` is none of those that tell the criteria apart. -/
theorem criterion_all (builder : CancelBuilder) :
    (CancelKey.ofBuilder builder.all).criterion = (CancelKey.ofBuilder builder).criterion := by
  have hbit (bit : UInt32) (hbit : Sys.ioringAsyncCancelAll &&& bit = 0) :
      builder.all.flags &&& bit = builder.flags &&& bit := by
    change (builder.flags ||| Sys.ioringAsyncCancelAll) &&& bit = _
    rw [Foundation.and_or_distrib_right₃₂, hbit, UInt32.or_zero]
  have hany := hbit Sys.ioringAsyncCancelAny (by decide)
  have hfd := hbit Sys.ioringAsyncCancelFd (by decide)
  have hfixed := hbit Sys.ioringAsyncCancelFdFixed (by decide)
  simp only [CancelKey.criterion, CancelKey.ofBuilder, hany, hfd, hfixed]
  rfl

/-- The numbers tell the criterion, and whether `all` was called. -/
theorem key_builder (criterion : Criterion) (calls : Nat) :
    (CancelKey.ofBuilder (criterion.builder calls)).criterion = criterion ∧
      (CancelKey.ofBuilder (criterion.builder calls)).isAll = decide (0 < calls) := by
  cases calls with
  | zero => exact ⟨criterion_start criterion, isAll_start criterion⟩
  | succ calls =>
      rw [criterion.builder_succ, criterion_all, decide_eq_true (Nat.succ_pos calls)]
      exact ⟨criterion_start criterion, isAll_all criterion.start⟩

/-- The time limit of a cancellation, seconds and nanoseconds. -/
def RegisterArg.timeout : RegisterArg → Option (Int64 × Int64)
  | .syncCancel _ _ _ tvSec tvNsec _ => some (tvSec, tvNsec)
  | _ => none

/-- A timeout that can be made is never the one that stands for none. -/
theorem timeout_ne_forever {ts : Timespec} (h : ts.Constructed) :
    (ts.tvSec, ts.tvNsec) ≠ (-1, -1) := by
  intro heq
  have hnsec : ts.tvNsec = -1 := congrArg Prod.snd heq
  have hnonneg := h.nsec_nonneg
  rw [hnsec] at hnonneg
  exact absurd hnonneg (by decide)

/-- The entry and the register call hold the same three numbers, and these tell the criterion the
builder was started with and whether `all` was called; `all` sets one bit and a second call
does nothing; the older entry is the one of a user data criterion; and no timeout that a
caller can pass is taken for its absence. -/
theorem cancellation_encoded_alike (s : Submitter) (criterion : Criterion) (calls : Nat)
    (timeout : Option Timespec) (hmade : ∀ ts ∈ timeout, ts.Constructed) :
    let builder := criterion.builder calls
    let entry := AsyncCancel2.build { builder }
    let call := s.registerSyncCancel (timeout.map fun ts => (ts.tvSec, ts.tvNsec)) builder
    CancelKey.ofArg call.arg = some (.ofSqe entry.sqe) ∧
      (CancelKey.ofSqe entry.sqe).criterion = criterion ∧
      (CancelKey.ofSqe entry.sqe).isAll = decide (0 < calls) ∧
      builder.all.all = builder.all ∧
      builder.all = { builder with flags := builder.flags ||| Sys.ioringAsyncCancelAll } ∧
      (∀ userData, AsyncCancel.build { userData } =
        AsyncCancel2.build { builder := .ofUserData userData }) ∧
      (call.arg.timeout = some (-1, -1) ↔ timeout = none) := by
  have hkey := key_builder criterion calls
  refine ⟨rfl, hkey.1, hkey.2, all_all _, rfl, fun _ => rfl, ?_⟩
  cases timeout with
  | none => exact iff_of_true rfl rfl
  | some ts =>
      apply iff_of_false
      · intro hforever
        exact timeout_ne_forever (hmade ts rfl) (Option.some.inj hforever)
      · exact Option.some_ne_none ts

/-- All requests on registered file 7, for at most a second and a half. -/
theorem cancellation_encoded_alike_fixed :
    let timeout := (Timespec.new.sec 1).nsec 500000000
    let builder := (Criterion.fd (.fixed 7)).builder 1
    let entry := AsyncCancel2.build { builder }
    let call := Submitter.registerSyncCancel { fd := 3, params := .zeroed }
      (some (timeout.tvSec, timeout.tvNsec)) builder
    CancelKey.ofArg call.arg = some (.ofSqe entry.sqe) ∧
      (CancelKey.ofSqe entry.sqe).criterion = .fd (.fixed 7) ∧
      (CancelKey.ofSqe entry.sqe).isAll = decide (0 < 1) ∧
      call.arg.timeout ≠ some (-1, -1) := by
  have hmade : ∀ ts ∈ some ((Timespec.new.sec 1).nsec 500000000), ts.Constructed := by
    rintro ts ⟨⟩
    exact (Timespec.Constructed.new.sec 1).nsec 500000000
  obtain ⟨hequal, hcriterion, hall, -, -, -, hforever⟩ :=
    cancellation_encoded_alike { fd := 3, params := .zeroed } (.fd (.fixed 7)) 1 _ hmade
  exact ⟨hequal, hcriterion, hall, fun heq => Option.some_ne_none _ (hforever.mp heq)⟩

end IoUring.Submit
