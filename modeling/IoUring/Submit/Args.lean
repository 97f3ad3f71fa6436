import IoUring.Foundation.LastWrite
import IoUring.Submit.Submitter
import Mathlib.Data.List.Induction

/-!
# The arguments of a submit call

`SubmitArgs` is filled by setters, in any order and any number of times. The
size that goes with a signal mask is that of the `sigset_t` of the C library,
which is not the kernel's.
-/

namespace IoUring.Submit

/-- The address of what a reference points to. -/
structure Reference where
  addr : UInt64
  addr_ne : addr ≠ 0

/-- `SubmitArgs`, an `io_uring_getevents_arg`. -/
structure SubmitArgs where
  sigmask : UInt64
  sigmaskSz : UInt32
  minWaitUsec : UInt32
  ts : UInt64

namespace SubmitArgs

def new : SubmitArgs where
  sigmask := 0
  sigmaskSz := 0
  minWaitUsec := 0
  ts := 0

/-- The setter `sigmask`. -/
def setSigmask (args : SubmitArgs) (sigmask : Reference) : SubmitArgs :=
  { args with
    sigmask := sigmask.addr
    sigmaskSz := sigsetSize.toUInt32 }

/-- The setter `min_wait_usec`. -/
def setMinWaitUsec (args : SubmitArgs) (minWaitUsec : UInt32) : SubmitArgs :=
  { args with minWaitUsec := minWaitUsec }

/-- The setter `timespec`. -/
def setTimespec (args : SubmitArgs) (timespec : Reference) : SubmitArgs :=
  { args with ts := timespec.addr }

/-- The setters. -/
inductive Setter where
  | sigmask
  | minWaitUsec
  | timespec
  deriving DecidableEq

/-- A call of a setter. -/
inductive Call where
  | sigmask (mask : Reference)
  | minWaitUsec (usec : UInt32)
  | timespec (ts : Reference)

namespace Call

def setter : Call → Setter
  | .sigmask _ => .sigmask
  | .minWaitUsec _ => .minWaitUsec
  | .timespec _ => .timespec

/-- What a call gives for the signal mask. -/
def sigmask? : Call → Option UInt64
  | .sigmask mask => some mask.addr
  | _ => none

/-- What a call gives for the minimal wait. -/
def minWaitUsec? : Call → Option UInt32
  | .minWaitUsec usec => some usec
  | _ => none

/-- What a call gives for the timeout. -/
def timespec? : Call → Option UInt64
  | .timespec ts => some ts.addr
  | _ => none

end Call

def apply (args : SubmitArgs) : Call → SubmitArgs
  | .sigmask mask => args.setSigmask mask
  | .minWaitUsec usec => args.setMinWaitUsec usec
  | .timespec ts => args.setTimespec ts

/-- The arguments after a sequence of calls. -/
def built (calls : List Call) : SubmitArgs := calls.foldl apply new

/-- The size of the kernel's `sigset_t`. -/
def kernelSigsetSize : UInt32 := 8

/-- The kernel rejects a signal mask of any other size. -/
def Accepted (args : SubmitArgs) : Prop :=
  args.sigmask = 0 ∨ args.sigmaskSz = kernelSigsetSize

theorem apply_comm {c c' : Call} (h : c.setter ≠ c'.setter) (args : SubmitArgs) :
    (args.apply c).apply c' = (args.apply c').apply c := by
  cases c <;> cases c' <;> first | rfl | exact absurd rfl h

theorem built_snoc (calls : List Call) (c : Call) :
    built (calls ++ [c]) = (built calls).apply c :=
  List.foldl_concat ..

/-- The size goes with the mask, which only its setter gives. -/
theorem sigmask_built (calls : List Call) :
    ((built calls).sigmask = 0 ∧ (built calls).sigmaskSz = 0 ∧
        ∀ c ∈ calls, c.setter ≠ .sigmask) ∨
      ((built calls).sigmask ≠ 0 ∧ (built calls).sigmaskSz = 128 ∧
        ∃ c ∈ calls, c.setter = .sigmask) := by
  induction calls using List.reverseRecOn with
  | nil =>
      left
      exact ⟨rfl, rfl, nofun⟩
  | append_singleton calls c ih =>
      rw [built_snoc]
      cases c with
      | sigmask mask =>
          right
          exact ⟨mask.addr_ne, rfl, .sigmask mask, by simp, rfl⟩
      | minWaitUsec | timespec =>
          rcases ih with ⟨hzero, hsize, hnone⟩ | ⟨hne, hsize, c, hmem, hc⟩
          · left
            refine ⟨hzero, hsize, ?_⟩
            intro c hmem
            rcases List.mem_append.mp hmem with hmem | hmem
            · exact hnone c hmem
            · rw [List.mem_singleton.mp hmem]
              nofun
          · right
            exact ⟨hne, hsize, c, List.mem_append_left _ hmem, hc⟩

/-- Whatever is called in whatever order, the arguments hold what was given last to each setter,
and neighbouring calls of two setters may be exchanged; but the kernel accepts them only if no
signal mask is given, since the size that comes with one is not that of its own masks. -/
theorem args_accepted_iff (calls : List Call) :
    ((built calls).sigmask = (Foundation.lastGiven Call.sigmask? calls).getD 0 ∧
        (built calls).minWaitUsec = (Foundation.lastGiven Call.minWaitUsec? calls).getD 0 ∧
        (built calls).ts = (Foundation.lastGiven Call.timespec? calls).getD 0 ∧
        (built calls).sigmaskSz = if (built calls).sigmask = 0 then 0 else 128) ∧
      (∀ a b c c', calls = a ++ c :: c' :: b → c.setter ≠ c'.setter →
        built calls = built (a ++ c' :: c :: b)) ∧
      ((built calls).Accepted ↔ ∀ c ∈ calls, c.setter ≠ .sigmask) := by
  refine ⟨⟨?_, ?_, ?_, ?_⟩, ?_, ?_⟩
  · exact Foundation.read_foldl (by rintro args (_ | _ | _) <;> rfl) new calls
  · exact Foundation.read_foldl (by rintro args (_ | _ | _) <;> rfl) new calls
  · exact Foundation.read_foldl (by rintro args (_ | _ | _) <;> rfl) new calls
  · rcases sigmask_built calls with ⟨hzero, hsize, -⟩ | ⟨hne, hsize, -⟩
    · rw [if_pos hzero, hsize]
    · rw [if_neg hne, hsize]
  · rintro a b c c' rfl hne
    exact Foundation.foldl_swap (apply_comm hne) new a b
  · rcases sigmask_built calls with ⟨hzero, -, hnone⟩ | ⟨hne, hsize, c, hmem, hc⟩
    · exact iff_of_true (.inl hzero) hnone
    · apply iff_of_false
      · rintro (hzero | hkernel)
        · exact hne hzero
        · rw [hsize] at hkernel
          exact absurd hkernel (by decide)
      · intro hnone
        exact hnone c hmem hc

/-- A signal mask comes with a size that the kernel rejects. -/
theorem sigmask_rejected :
    ¬ (built [.sigmask { addr := 4096, addr_ne := by decide }]).Accepted := by
  rintro (h | h) <;> exact absurd h (by decide)

end SubmitArgs

end IoUring.Submit
