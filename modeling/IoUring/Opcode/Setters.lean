import IoUring.Opcode.FileTarget
import IoUring.Squeue.ByteImage

/-!
# What the setters leave of a built entry

A builder marks a registered file and the choice of a buffer in the byte that
also holds the caller's flags. The setters add to this byte, except the one that
clears all of it; no setter touches the descriptor.
-/

namespace IoUring.Opcode

open Squeue IoUring.Types

/-- All flags that a chain of setters passes. -/
def allPassed : List Setter → UInt8
  | [] => 0
  | setter :: rest => passed setter ||| allPassed rest

/-- No setter passes `FIXED_FILE`, which is hidden from the documentation. -/
def Public (setters : List Setter) : Prop :=
  ∀ setter ∈ setters, passed setter &&& Flags.fixedFile = 0

theorem allPassed_fixedFile {setters : List Setter} (h : Public setters) :
    allPassed setters &&& Flags.fixedFile = 0 := by
  induction setters with
  | nil => rfl
  | cons setter rest ih =>
      obtain ⟨hfirst, hrest⟩ := List.forall_mem_cons.mp h
      rw [allPassed, Foundation.and_or_distrib_right₈, hfirst, ih hrest, UInt8.or_zero]

/-- A bit is passed when one of the setters passes it. -/
theorem allPassed_ne_zero_iff (setters : List Setter) (bit : UInt8) :
    allPassed setters &&& bit ≠ 0 ↔ ∃ setter ∈ setters, passed setter &&& bit ≠ 0 := by
  induction setters with
  | nil =>
      refine iff_of_false (fun hne => hne UInt8.zero_and) ?_
      rintro ⟨setter, hmem, -⟩
      cases hmem
  | cons setter rest ih =>
      simp only [allPassed, Foundation.and_or_distrib_right₈, Ne, UInt8.or_eq_zero_iff, not_and_or,
        List.mem_cons, exists_eq_or_imp, ← ih]

variable (built : Built) (setters : List Setter)

/-- The descriptor word is the builder's. -/
theorem applyAll_fd : (built.applyAll setters).sqe.fd = built.sqe.fd := by
  induction setters generalizing built with
  | nil => rfl
  | cons setter rest ih => exact (ih (built.apply setter)).trans (apply_fd built setter)

/-- Without a call of `clear_flags` the passed flags are added. -/
theorem applyAll_flags (hkept : Setter.clearFlags ∉ setters) :
    (built.applyAll setters).sqe.flags = built.sqe.flags ||| allPassed setters := by
  induction setters generalizing built with
  | nil => exact UInt8.or_zero.symm
  | cons setter rest ih =>
      obtain ⟨hfirst, hrest⟩ := not_or.mp (mt List.mem_cons.mpr hkept)
      calc
        ((built.apply setter).applyAll rest).sqe.flags
            = (built.apply setter).sqe.flags ||| allPassed rest := ih _ hrest
        _ = built.sqe.flags ||| passed setter ||| allPassed rest := by
            rw [apply_flags built (Ne.symm hfirst)]
        _ = built.sqe.flags ||| allPassed (setter :: rest) := UInt8.or_assoc ..

/-- After the last call of `clear_flags` the byte is what has been passed since. -/
theorem applyAll_flags_cleared (before after : List Setter)
    (hlast : Setter.clearFlags ∉ after) :
    (built.applyAll (before ++ .clearFlags :: after)).sqe.flags = allPassed after := by
  have hsplit : built.applyAll (before ++ .clearFlags :: after) =
      ((built.applyAll before).apply .clearFlags).applyAll after := List.foldl_append
  have hcleared : ((built.applyAll before).apply .clearFlags).sqe.flags = 0 := by
    cases built.applyAll before <;> rfl
  rw [hsplit, applyAll_flags _ after hlast, hcleared, UInt8.zero_or]

variable {built setters}

/-- The bit that was added without `clear_flags` in between is still there. -/
theorem applyAll_bit (hkept : Setter.clearFlags ∉ setters) {bit : UInt8}
    (hset : built.sqe.flags &&& bit ≠ 0) : (built.applyAll setters).sqe.flags &&& bit ≠ 0 := by
  rw [applyAll_flags built setters hkept, Foundation.and_or_distrib_right₈]
  intro hzero
  exact hset (UInt8.or_eq_zero_iff.mp hzero).1

/-- No public call makes a raw descriptor an index. -/
theorem applyAll_raw (hpublic : Public setters) (hraw : built.sqe.flags &&& Flags.fixedFile = 0) :
    (built.applyAll setters).sqe.flags &&& Flags.fixedFile = 0 := by
  induction setters generalizing built with
  | nil => exact hraw
  | cons setter rest ih =>
      obtain ⟨hfirst, hrest⟩ := List.forall_mem_cons.mp hpublic
      apply ih hrest
      by_cases hclear : setter = .clearFlags
      · rw [hclear]
        cases built <;> exact UInt8.zero_and
      · rw [apply_flags built hclear, Foundation.and_or_distrib_right₈, hraw, hfirst, UInt8.or_zero]

/-- What the builder of an operation returns, converted to a big entry or not. -/
def Op.entry (op : Op) (converted : Bool) : Built :=
  if converted then .entry128 op.build.widen else op.build

/-- The descriptor of an entry never changes, and one that is not an index does not become one;
without `clear_flags` the decoded file and the builder's choice of a buffer stay as they were
built; and `clear_flags` takes the choice away until a later call of `flags` makes it again. -/
theorem setters_keep_target (op : Op) (converted : Bool) {setters : List Setter}
    (hpublic : Public setters) :
    let built := op.entry converted
    let sqe := (built.applyAll setters).sqe
    sqe.fd = built.sqe.fd ∧
      (∀ fd, built.sqe.file = .fd fd → sqe.file = .fd fd) ∧
      (.clearFlags ∉ setters →
        sqe.file = built.sqe.file ∧
          (built.sqe.flags &&& Flags.bufferSelect ≠ 0 → sqe.flags &&& Flags.bufferSelect ≠ 0)) ∧
      ∀ before after, setters = before ++ .clearFlags :: after → .clearFlags ∉ after →
        (sqe.flags &&& Flags.bufferSelect ≠ 0 ↔
          ∃ setter ∈ after, passed setter &&& Flags.bufferSelect ≠ 0) := by
  intro built sqe
  have hfd : sqe.fd = built.sqe.fd := applyAll_fd built setters
  refine ⟨hfd, ?_, ?_, ?_⟩
  · intro fd hfile
    have hraw : built.sqe.flags &&& Flags.fixedFile = 0 := by
      by_contra hne
      rw [Sqe.file, if_pos hne] at hfile
      cases hfile
    have hset := applyAll_raw hpublic hraw
    rw [← hfile, Sqe.file, Sqe.file, hfd, hraw, hset]
  · intro hkept
    have hflags : sqe.flags &&& Flags.fixedFile = built.sqe.flags &&& Flags.fixedFile := by
      rw [applyAll_flags built setters hkept, Foundation.and_or_distrib_right₈,
        allPassed_fixedFile hpublic, UInt8.or_zero]
    refine ⟨?_, applyAll_bit hkept⟩
    rw [Sqe.file, Sqe.file, hfd, hflags]
  · rintro before after rfl hlast
    rw [applyAll_flags_cleared built before after hlast, allPassed_ne_zero_iff]

/-- A multishot receive from registered file 7 that is linked keeps file and choice; one from
descriptor 7 that is linked, cleared and linked again keeps the file alone. -/
theorem setters_keep_target_linked :
    let fixed := (Op.recvMulti { fd := .fixed 7, bufGroup := 1 }).entry true
    let linked := [.flags Flags.ioLink, .userData 42]
    let raw := (Op.recvMulti { fd := .fd 7, bufGroup := 1 }).entry true
    let cleared := [.flags Flags.ioLink, .clearFlags, .flags Flags.ioLink]
    (fixed.applyAll linked).sqe.file = fixed.sqe.file ∧
      (fixed.sqe.flags &&& Flags.bufferSelect ≠ 0 →
        (fixed.applyAll linked).sqe.flags &&& Flags.bufferSelect ≠ 0) ∧
      (raw.applyAll cleared).sqe.file = .fd 7 ∧
      (raw.applyAll cleared).sqe.flags &&& Flags.bufferSelect = 0 := by
  have hlinked : Public [.flags Flags.ioLink, .userData 42] := by
    simp only [Public, List.forall_mem_cons]
    exact ⟨by decide, by decide, nofun⟩
  have hcleared : Public [.flags Flags.ioLink, .clearFlags, .flags Flags.ioLink] := by
    simp only [Public, List.forall_mem_cons]
    exact ⟨by decide, by decide, by decide, nofun⟩
  obtain ⟨-, -, hkept, -⟩ := setters_keep_target
    (.recvMulti { fd := .fixed 7, bufGroup := 1 }) true hlinked
  obtain ⟨-, hraw, -, hselect⟩ := setters_keep_target
    (.recvMulti { fd := .fd 7, bufGroup := 1 }) true hcleared
  obtain ⟨hfile, hchoice⟩ := hkept (by simp)
  refine ⟨hfile, hchoice, hraw 7 (by decide), ?_⟩
  apply Decidable.not_not.mp
  intro hne
  obtain ⟨setter, hmem, hpassed⟩ :=
    (hselect [.flags Flags.ioLink] [.flags Flags.ioLink] rfl (by simp)).mp hne
  obtain rfl := List.mem_singleton.mp hmem
  exact hpassed (by decide)

/-- The call takes away both the mark of a registered file and the choice of a buffer. -/
theorem clearFlags_loses_target :
    let built := (Op.recvMulti { fd := .fixed 7, bufGroup := 1 }).entry false
    Public [.clearFlags] ∧ built.sqe.file = .fixed 7 ∧
      built.sqe.flags &&& Flags.bufferSelect ≠ 0 ∧
      (built.applyAll [.clearFlags]).sqe.file = .fd 7 ∧
      (built.applyAll [.clearFlags]).sqe.flags &&& Flags.bufferSelect = 0 := by
  refine ⟨?_, by decide, by decide, by decide, by decide⟩
  rintro setter (_ | ⟨_, hnil⟩)
  · rfl
  · cases hnil

end IoUring.Opcode
