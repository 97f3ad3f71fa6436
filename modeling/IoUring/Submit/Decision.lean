import IoUring.Foundation.FlagWord
import IoUring.Submit.Submitter

/-!
# What a submit call decides

Both submit functions come to the same decision: whether the syscall is skipped
depends on the parameters, the wanted completions and the two loads of the
flags word, and so do the flags of `io_uring_enter` if it is not.
-/

namespace IoUring.Submit

namespace Request

def want : Request → UInt64
  | .submitAndWait want | .submitWithArgs want _ => want

def hasArgs : Request → Bool
  | .submitAndWait _ => false
  | .submitWithArgs _ _ => true

/-- The flag that announces the extended argument. -/
def extArg : Request → UInt32
  | .submitAndWait _ => 0
  | .submitWithArgs _ _ => Sys.ioringEnterExtArg

def arg : Request → UInt64
  | .submitAndWait _ => 0
  | .submitWithArgs _ args => args

def size : Request → UInt64
  | .submitAndWait _ => sigsetSize
  | .submitWithArgs _ _ => submitArgsSize

end Request

namespace Submitter

variable (s : Submitter)

/-- The kernel is asked to process events. -/
def getsEvents (want : UInt64) (f1 : UInt32) : Bool :=
  want > 0 || s.params.isSetupIopoll || sqCqOverflow f1

/-- The kernel thread is asked to wake up. -/
def wakes (f2 : UInt32) : Bool := s.params.isSetupSqpoll && sqNeedWakeup f2

/-- The syscall is skipped. -/
def skips (want : UInt64) (f1 f2 : UInt32) : Bool :=
  s.params.isSetupSqpoll && !sqNeedWakeup f2 && want == 0 &&
    !(sqCqOverflow f1 && s.params.isFeatureNodrop)

/-- The flags of `io_uring_enter`, apart from that for a registered ring. -/
def enterFlags (req : Request) (f1 f2 : UInt32) : UInt32 :=
  (req.extArg ||| if s.getsEvents req.want f1 then Sys.ioringEnterGetevents else 0) |||
    if s.wakes f2 then Sys.ioringEnterSqWakeup else 0

/-- The decision of both submit functions. -/
theorem finish_eq (len : UInt64) (f1 f2 : UInt32) (req : Request) :
    s.finish len f1 f2 req =
      if s.skips req.want f1 f2 then .ok len
      else .enter (s.enter len.toUInt32 req.want.toUInt32 (s.enterFlags req f1 f2) req.arg
        req.size) := by
  have hinsert (flags : UInt32) (g : Bool) :
      (if g then flags ||| Sys.ioringEnterGetevents else flags) =
        flags ||| if g then Sys.ioringEnterGetevents else 0 := by
    cases g <;> simp
  cases req <;>
    simp only [finish, submitAndWait, submitWithArgs, Request.want, Request.extArg, Request.arg,
      Request.size, enterFlags, getsEvents, hinsert] <;>
    cases hpoll : s.params.isSetupSqpoll <;> cases hwake : sqNeedWakeup f2 <;>
    simp [skips, wakes, hpoll, hwake]

/-- The flags of a call, from whether it passes arguments, processes events, wakes the thread
and names a registered ring. -/
def flagWord (args gets wakes ring : Bool) : UInt32 :=
  (((if args then Sys.ioringEnterExtArg else 0) |||
    if gets then Sys.ioringEnterGetevents else 0) |||
      if wakes then Sys.ioringEnterSqWakeup else 0) |||
        if ring then Sys.ioringEnterRegisteredRing else 0

/-- Each of the four has a bit of its own. -/
theorem flagWord_bits : ∀ args gets wakes ring : Bool,
    (flagWord args gets wakes ring &&& Sys.ioringEnterExtArg ≠ 0 ↔ args = true) ∧
      (flagWord args gets wakes ring &&& Sys.ioringEnterGetevents ≠ 0 ↔ gets = true) ∧
      (flagWord args gets wakes ring &&& Sys.ioringEnterSqWakeup ≠ 0 ↔ wakes = true) ∧
      (flagWord args gets wakes ring &&& Sys.ioringEnterRegisteredRing ≠ 0 ↔ ring = true) ∧
      flagWord true gets wakes ring = flagWord false gets wakes ring ||| Sys.ioringEnterExtArg := by
  decide

/-- No submit call asks for a registered ring by itself. -/
theorem enterFlags_eq (req : Request) (f1 f2 : UInt32) :
    s.enterFlags req f1 f2 =
      flagWord req.hasArgs (s.getsEvents req.want f1) (s.wakes f2) false := by
  cases req <;> simp [enterFlags, flagWord, Request.extArg, Request.hasArgs]

/-- The call with which a submit function enters. -/
theorem enter_enterFlags (req : Request) (f1 f2 toSubmit minComplete : UInt32)
    (arg size : UInt64) :
    s.enter toSubmit minComplete (s.enterFlags req f1 f2) arg size =
      { fd := if s.enterRingFd ≥ 0 then s.enterRingFd else s.fd
        toSubmit
        minComplete
        flag := flagWord req.hasArgs (s.getsEvents req.want f1) (s.wakes f2)
          (decide (s.enterRingFd ≥ 0))
        arg
        size } := by
  rw [enterFlags_eq, enter]
  by_cases h : s.enterRingFd ≥ 0
  · simp [h, flagWord]
  · simp [h]

/-- A call that is to process events says so in its flags. -/
theorem getevents_of_getsEvents {req : Request} {f1 : UInt32}
    (h : s.getsEvents req.want f1 = true) (f2 toSubmit minComplete : UInt32)
    (arg size : UInt64) :
    (s.enter toSubmit minComplete (s.enterFlags req f1 f2) arg size).flag &&&
      Sys.ioringEnterGetevents ≠ 0 := by
  rw [enter_enterFlags]
  exact (flagWord_bits ..).2.1.mpr h

theorem getsEvents_iff (want : UInt64) (f1 : UInt32) :
    s.getsEvents want f1 = true ↔
      want > 0 ∨ s.params.isSetupIopoll = true ∨ sqCqOverflow f1 = true := by
  simp only [getsEvents, Bool.or_eq_true, decide_eq_true_eq, or_assoc]

theorem wakes_iff (f2 : UInt32) :
    s.wakes f2 = true ↔ s.params.isSetupSqpoll = true ∧ sqNeedWakeup f2 = true := by
  simp only [wakes, Bool.and_eq_true]

theorem skips_iff (want : UInt64) (f1 f2 : UInt32) :
    s.skips want f1 f2 = true ↔
      s.params.isSetupSqpoll = true ∧ sqNeedWakeup f2 = false ∧ want = 0 ∧
        ¬ (sqCqOverflow f1 = true ∧ s.params.isFeatureNodrop = true) := by
  simp only [skips, Bool.and_eq_true, Bool.not_eq_true', beq_iff_eq, Bool.and_eq_false_iff,
    and_assoc, Decidable.not_and_iff_or_not, Bool.not_eq_true]

/-- On the same loads `submit_and_wait` and `submit_with_args` skip the syscall together and
return the published length, or enter with the same call but for the flag, the address and the
size of the extended argument. They skip exactly when the kernel thread polls, its flag is down,
nothing is waited for and no overflowed completion has to be flushed. -/
theorem submit_paths_agree (head tail f1 f2 : UInt32) (want args : UInt64) :
    let polls := s.params.flags &&& Sys.ioringSetupSqpoll ≠ 0
    let asleep := f2 &&& Sys.ioringSqNeedWakeup ≠ 0
    let overflowed := f1 &&& Sys.ioringSqCqOverflow ≠ 0
    let nodrop := s.params.features &&& Sys.ioringFeatNodrop ≠ 0
    let skipping := polls ∧ ¬ asleep ∧ want = 0 ∧ ¬ (overflowed ∧ nodrop)
    let len := sqLen head tail
    (skipping → s.submitAndWait want len f1 f2 = .ok (tail - head).toUInt64 ∧
        s.submitWithArgs want args len f1 f2 = .ok (tail - head).toUInt64) ∧
      (¬ skipping → ∃ call, s.submitAndWait want len f1 f2 = .enter call ∧
        s.submitWithArgs want args len f1 f2 = .enter
          { call with
            flag := call.flag ||| Sys.ioringEnterExtArg
            arg := args
            size := 24 } ∧
        call.flag &&& Sys.ioringEnterExtArg = 0 ∧ call.arg = 0 ∧ call.size ≠ 24 ∧
        (call.flag &&& Sys.ioringEnterGetevents ≠ 0 ↔
          want > 0 ∨ s.params.flags &&& Sys.ioringSetupIopoll ≠ 0 ∨ overflowed) ∧
        (call.flag &&& Sys.ioringEnterSqWakeup ≠ 0 ↔ polls ∧ asleep) ∧
        (call.flag &&& Sys.ioringEnterRegisteredRing ≠ 0 ↔ s.enterRingFd ≥ 0) ∧
        call.fd = (if s.enterRingFd ≥ 0 then s.enterRingFd else s.fd) ∧
        call.toSubmit = tail - head ∧ call.minComplete = want.toUInt32) := by
  intro polls asleep overflowed nodrop skipping len
  have hpolls : s.params.isSetupSqpoll = true ↔ polls := bne_iff_ne
  have hasleep : sqNeedWakeup f2 = true ↔ asleep := bne_iff_ne
  have hoverflowed : sqCqOverflow f1 = true ↔ overflowed := bne_iff_ne
  have hnodrop : s.params.isFeatureNodrop = true ↔ nodrop := bne_iff_ne
  have hskipping : s.skips want f1 f2 = true ↔ skipping := by
    rw [s.skips_iff, ← Bool.not_eq_true, hpolls, hasleep, hoverflowed, hnodrop]
  have hwait : s.submitAndWait want len f1 f2 = _ := s.finish_eq len f1 f2 (.submitAndWait want)
  have hargs : s.submitWithArgs want args len f1 f2 = _ :=
    s.finish_eq len f1 f2 (.submitWithArgs want args)
  constructor
  · intro h
    have hskips := hskipping.mpr h
    exact ⟨hwait.trans (if_pos hskips), hargs.trans (if_pos hskips)⟩
  · intro h
    have hskips := mt hskipping.mp h
    have hwait := hwait.trans (if_neg hskips)
    have hargs := hargs.trans (if_neg hskips)
    rw [enter_enterFlags] at hwait hargs
    obtain ⟨hext, hgets, hwakes, hring, hword⟩ := flagWord_bits false
      (s.getsEvents want f1) (s.wakes f2) (decide (s.enterRingFd ≥ 0))
    simp only [Request.hasArgs, Request.want, Request.arg, Request.size, hword] at hwait hargs
    rw [s.getsEvents_iff, hoverflowed, Parameters.isSetupIopoll, bne_iff_ne] at hgets
    rw [s.wakes_iff, hpolls, hasleep] at hwakes
    rw [decide_eq_true_eq] at hring
    exact ⟨_, hwait, hargs, Decidable.not_not.mp (mt hext.mp nofun), rfl,
      (by decide : sigsetSize ≠ 24), hgets, hwakes, hring, rfl,
      UInt32.toUInt32_toUInt64 _, rfl⟩

end Submitter

end IoUring.Submit
