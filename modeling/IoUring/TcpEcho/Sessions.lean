import IoUring.Foundation.Transition
import IoUring.Squeue.Entry
import Mathlib.Algebra.BigOperators.Group.List.Basic
import Mathlib.Algebra.GroupWithZero.Nat
import Mathlib.Data.List.Induction

/-!
# What an echo is

Seen from the network, a connection is accepted, brings messages and gets each
of them back in one or more writes before the next one is taken; at the end of
its stream it is closed. How much of a message a write asks for, and with that
when a message counts as answered, is a parameter: a full echo asks for all that
is left, the server for what its arithmetic says.
-/

namespace IoUring.TcpEcho

open Foundation

/-- What is to be seen of a run: what the kernel does on the descriptors, and the completions
with an error and the requests that the server makes nothing of. -/
inductive Event where
  | accepted (fd : Int32)
  | received (fd : Int32) (bytes : List UInt8)
  | sent (fd : Int32) (bytes : List UInt8)
  | closed (fd : Int32)
  | failed (token : UInt64) (res : Int32)
  | dropped (entry : Squeue.Entry)
  | quiet

/-- A connection has nothing to answer, holds a message with the lengths of the writes so far, or
is at the end of its stream. -/
inductive Session where
  | idle
  | holding (message : List UInt8) (writes : List Nat)
  | ended

/-- The open connections, and the messages that count as answered with the lengths of their
writes. -/
structure Sessions where
  state : Int32 → Option Session
  answered : List (List UInt8 × List Nat)

/-- How many bytes the next write of a message asks for after these writes, if there is one. -/
abbrev Asks := Nat → List Nat → Option Nat

namespace Sessions

def start : Sessions where
  state := fun _ => none
  answered := []

def setState (s : Sessions) (fd : Int32) (session : Option Session) : Sessions :=
  { s with state := Function.update s.state fd session }

@[simp] theorem setState_self (s : Sessions) (fd : Int32) (session : Option Session) :
    (s.setState fd session).state fd = session := Function.update_self ..

theorem setState_of_ne {fd fd' : Int32} (h : fd' ≠ fd) (s : Sessions) (session : Option Session) :
    (s.setState fd session).state fd' = s.state fd' := Function.update_of_ne h ..

/-- After these writes of a message it counts as answered, or is still held. -/
def wrote (asks : Asks) (s : Sessions) (fd : Int32) (message : List UInt8) (writes : List Nat) :
    Sessions :=
  match asks message.length writes with
  | none =>
      { state := Function.update s.state fd (some .idle)
        answered := s.answered ++ [(message, writes)] }
  | some _ => s.setState fd (some (.holding message writes))

inductive Step (asks : Asks) (s : Sessions) : Event → Sessions → Prop
  | accepted {fd} (hnew : s.state fd = none) :
      Step asks s (.accepted fd) (s.setState fd (some .idle))
  | received {fd bytes} (hidle : s.state fd = some .idle) (hbytes : bytes ≠ []) :
      Step asks s (.received fd bytes) (s.setState fd (some (.holding bytes [])))
  | ended {fd} (hidle : s.state fd = some .idle) :
      Step asks s (.received fd []) (s.setState fd (some .ended))
  | sent {fd message writes n bytes} (hholds : s.state fd = some (.holding message writes))
      (hasks : asks message.length writes = some n) (hle : bytes.length ≤ n)
      (hbytes : bytes = (message.drop writes.sum).take bytes.length) :
      Step asks s (.sent fd bytes) (s.wrote asks fd message (writes ++ [bytes.length]))
  | closed {fd} (hended : s.state fd = some .ended) :
      Step asks s (.closed fd) (s.setState fd none)
  | failed {token res} : Step asks s (.failed token res) s
  | dropped {entry} : Step asks s (.dropped entry) s
  | quiet : Step asks s .quiet s

end Sessions

/-! ## How much a write asks for -/

/-- A full echo asks for everything that has not been written. -/
def fullAsks : Asks := fun length writes =>
  if writes.sum < length then some (length - writes.sum) else none

/-- The server's next offset and length after a write. -/
def advance (w : Nat) : Nat × Nat → Option (Nat × Nat)
  | (offset, len) => if offset + w ≥ len then none else some (offset + w, len - (offset + w))

/-- Offset and length of the server's next write after these writes, if there is one. -/
def nextWrite (length : Nat) (writes : List Nat) : Option (Nat × Nat) :=
  ledgerAfter (fun next w => next.bind (advance w)) (some (0, length)) writes

def serverAsks : Asks := fun length writes => (nextWrite length writes).map Prod.snd

theorem nextWrite_snoc (length : Nat) (writes : List Nat) (w : Nat) :
    nextWrite length (writes ++ [w]) = (nextWrite length writes).bind (advance w) :=
  ledgerAfter_snoc _ _ _ _

/-- Writes that stay within what the server asks for. -/
inductive Writes (length : Nat) : List Nat → Prop
  | start : Writes length []
  | next {writes offset len w} (h : Writes length writes)
      (hnext : nextWrite length writes = some (offset, len)) (hw : w ≤ len) :
      Writes length (writes ++ [w])

/-- Up to writes of nothing, the first write takes everything or a second one takes the rest. -/
def Whole (length : Nat) (writes : List Nat) : Prop :=
  ∃ zeros, writes = List.replicate zeros 0 ++ [length] ∨
    ∃ w, 0 < w ∧ w < length ∧ writes = List.replicate zeros 0 ++ [w, length - w]

theorem Whole.sum_eq {length : Nat} {writes : List Nat} (h : Whole length writes) :
    writes.sum = length := by
  obtain ⟨zeros, rfl | ⟨w, -, hlt, rfl⟩⟩ := h
  · simp
  · simp
    omega

/-- The offset is the number of bytes written, and the request stays within the message. -/
theorem nextWrite_eq_some {length : Nat} {writes : List Nat} {offset len : Nat}
    (h : nextWrite length writes = some (offset, len)) (hpos : 0 < length) :
    offset = writes.sum ∧ offset + len ≤ length ∧ 0 < len := by
  induction writes using List.reverseRecOn generalizing offset len with
  | nil =>
      cases h
      exact ⟨rfl, by omega, hpos⟩
  | append_singleton writes w ih =>
      rw [nextWrite_snoc] at h
      obtain ⟨⟨offset', len'⟩, hbefore, hnow⟩ := Option.bind_eq_some_iff.mp h
      obtain ⟨hsum, hle, -⟩ := ih hbefore
      rw [advance] at hnow
      split at hnow
      · cases hnow
      · cases hnow
        rw [List.sum_append, List.sum_singleton]
        omega

/-- Where a message stands after writes: none took anything, one took everything, one took a
part, a second one took the rest, or something is left out for good. -/
inductive Stage (length : Nat) : List Nat → Prop
  | untouched (zeros : Nat) (h : nextWrite length (List.replicate zeros 0) = some (0, length)) :
      Stage length (List.replicate zeros 0)
  | atOnce (zeros : Nat) : Stage length (List.replicate zeros 0 ++ [length])
  | part (zeros w : Nat) (hpos : 0 < w) (hlt : w < length)
      (h : nextWrite length (List.replicate zeros 0 ++ [w]) = some (w, length - w)) :
      Stage length (List.replicate zeros 0 ++ [w])
  | rest (zeros w : Nat) (hpos : 0 < w) (hlt : w < length)
      (h : nextWrite length (List.replicate zeros 0 ++ [w, length - w]) = none) :
      Stage length (List.replicate zeros 0 ++ [w, length - w])
  | cut {writes} (hsum : writes.sum < length)
      (h : ∀ offset len, nextWrite length writes = some (offset, len) → offset + len < length) :
      Stage length writes

/-- A write after which something is left out for good. -/
theorem Stage.of_short {length : Nat} {writes : List Nat} {offset len w : Nat}
    (hnext : nextWrite length writes = some (offset, len)) (hsum : offset = writes.sum)
    (hw : offset + w < length) (hlen : len < length) : Stage length (writes ++ [w]) := by
  apply Stage.cut
  · rw [List.sum_append, List.sum_singleton, ← hsum]
    exact hw
  · intro offset' len' h
    rw [nextWrite_snoc, hnext, Option.bind_some, advance] at h
    split at h
    · cases h
    · cases h
      omega

theorem Writes.stage {length : Nat} {writes : List Nat} (h : Writes length writes)
    (hlength : 0 < length) : Stage length writes := by
  induction h with
  | start => exact .untouched 0 rfl
  | @next writes offset len w h hnext hw ih =>
      have hsum := (nextWrite_eq_some hnext hlength).1
      cases ih with
      | untouched zeros hstart =>
          rw [hstart] at hnext
          cases hnext
          have hadvance := nextWrite_snoc length (List.replicate zeros 0) w
          rw [hstart, Option.bind_some, advance, Nat.zero_add] at hadvance
          obtain rfl | hpos := Nat.eq_zero_or_pos w
          · have happend : List.replicate zeros 0 ++ [0] = List.replicate (zeros + 1) 0 :=
              List.replicate_succ'.symm
            rw [if_neg (by omega), happend] at hadvance
            rw [happend]
            exact .untouched (zeros + 1) hadvance
          · obtain rfl | hlt := Nat.eq_or_lt_of_le hw
            · exact .atOnce zeros
            · rw [if_neg (by omega)] at hadvance
              exact .part zeros w hpos hlt hadvance
      | atOnce zeros =>
          have hbound := (nextWrite_eq_some hnext hlength).2
          rw [hsum] at hbound
          simp only [List.sum_append, List.sum_singleton] at hbound
          omega
      | part zeros first hpos hlt hpart =>
          obtain ⟨rfl, rfl⟩ := Prod.mk.inj (Option.some.inj (hpart.symm.trans hnext))
          obtain rfl | hshort := Nat.eq_or_lt_of_le hw
          · have happend : List.replicate zeros 0 ++ [first] ++ [length - first] =
                List.replicate zeros 0 ++ [first, length - first] := List.append_assoc _ _ _
            have hadvance := nextWrite_snoc length (List.replicate zeros 0 ++ [first])
              (length - first)
            rw [hpart, Option.bind_some, advance, if_pos (by omega), happend] at hadvance
            rw [happend]
            exact .rest zeros first hpos hlt hadvance
          · exact .of_short hpart hsum (by omega) (by omega)
      | rest zeros first hpos hlt hdone =>
          rw [hdone] at hnext
          cases hnext
      | cut hcut hmore =>
          have hless := hmore _ _ hnext
          exact .of_short hnext hsum (by omega) (by omega)

/-- No more is written than the message has. -/
theorem Writes.sum_le {length : Nat} {writes : List Nat} (h : Writes length writes)
    (hlength : 0 < length) : writes.sum ≤ length := by
  cases h with
  | start => exact Nat.zero_le _
  | next h hnext hw =>
      obtain ⟨rfl, hle, -⟩ := nextWrite_eq_some hnext hlength
      rw [List.sum_append, List.sum_singleton]
      omega

/-- The server echoes a message in full exactly if its writes are whole. -/
theorem Writes.sum_eq_iff {length : Nat} {writes : List Nat} (h : Writes length writes)
    (hlength : 0 < length) : writes.sum = length ↔ Whole length writes := by
  refine ⟨fun hsum => ?_, Whole.sum_eq⟩
  cases h.stage hlength with
  | untouched zeros =>
      rw [List.sum_replicate_nat, Nat.mul_zero] at hsum
      omega
  | atOnce zeros => exact ⟨zeros, .inl rfl⟩
  | part zeros w hpos hlt =>
      rw [List.sum_append, List.sum_replicate_nat, Nat.mul_zero, List.sum_singleton] at hsum
      omega
  | rest zeros w hpos hlt => exact ⟨zeros, .inr ⟨w, hpos, hlt, rfl⟩⟩
  | cut hcut => omega

/-! ## When it is a full echo -/

theorem fullAsks_of_serverAsks {length n : Nat} {writes : List Nat}
    (h : serverAsks length writes = some n) (hpos : 0 < length) :
    ∃ n', fullAsks length writes = some n' ∧ n ≤ n' := by
  obtain ⟨⟨offset, len⟩, hnext, rfl⟩ := Option.map_eq_some_iff.mp h
  obtain ⟨rfl, hle, hlen⟩ := nextWrite_eq_some hnext hpos
  exact ⟨length - writes.sum, if_pos (by omega), by omega⟩

namespace Sessions

variable {s s' : Sessions} {event : Event} {events : List Event}

/-- What the server holds is not empty and not answered yet, and it only makes writes that it
asked for. -/
structure Valid (s : Sessions) : Prop where
  held : ∀ fd message writes, s.state fd = some (.holding message writes) →
    message ≠ [] ∧ Writes message.length writes
  done : ∀ p ∈ s.answered, p.1 ≠ [] ∧ Writes p.1.length p.2

theorem Valid.start : Valid start where
  held := by simp [Sessions.start]
  done := by simp [Sessions.start]

/-- A session other than a held message, or a valid one. -/
theorem Valid.setState (h : Valid s) {fd : Int32} {session : Option Session}
    (hvalid : ∀ message writes, session = some (.holding message writes) →
      message ≠ [] ∧ Writes message.length writes) : Valid (s.setState fd session) where
  held fd' message writes hstate := by
    by_cases hfd : fd' = fd
    · subst hfd
      rw [setState_self] at hstate
      exact hvalid message writes hstate
    · rw [setState_of_ne hfd] at hstate
      exact h.held fd' message writes hstate
  done := h.done

theorem Valid.step (h : Valid s) (hstep : Step serverAsks s event s') : Valid s' := by
  cases hstep with
  | accepted | ended | closed => exact h.setState (by simp)
  | received _ hbytes =>
      apply h.setState
      rintro message writes ⟨⟩
      exact ⟨hbytes, .start⟩
  | @sent fd message writes n bytes hholds hasks hle =>
      obtain ⟨hne, hwrites⟩ := h.held fd message writes hholds
      obtain ⟨⟨offset, len⟩, hnext, rfl⟩ := Option.map_eq_some_iff.mp hasks
      have hnow : Writes message.length (writes ++ [bytes.length]) := .next hwrites hnext hle
      unfold wrote
      split
      · have hidle : Valid (s.setState fd (some .idle)) := h.setState (by simp)
        refine ⟨hidle.held, ?_⟩
        intro p hp
        obtain hp | hp := List.mem_append.mp hp
        · exact h.done p hp
        · obtain rfl := List.mem_singleton.mp hp
          exact ⟨hne, hnow⟩
      · apply h.setState
        rintro _ _ ⟨⟩
        exact ⟨hne, hnow⟩
  | failed | dropped | quiet => exact h

theorem Valid.run (run : Run (Step serverAsks) Sessions.start events s) : Valid s := by
  induction run with
  | start => exact .start
  | next _ h ih => exact ih.step h

/-- What is answered stays answered. -/
theorem Step.answered_subset {asks : Asks} (hstep : Step asks s event s') :
    s.answered ⊆ s'.answered := by
  cases hstep with
  | sent =>
      unfold wrote
      split
      · exact List.subset_append_left _ _
      · exact List.Subset.refl _
  | _ => exact List.Subset.refl _

/-- Where all writes are whole, the server's step is one of a full echo. -/
theorem Step.full (hstep : Step serverAsks s event s') (hvalid : Valid s)
    (hwhole : ∀ p ∈ s'.answered, Whole p.1.length p.2) : Step fullAsks s event s' := by
  cases hstep with
  | accepted hnew => exact .accepted hnew
  | received hidle hbytes => exact .received hidle hbytes
  | ended hidle => exact .ended hidle
  | @sent fd message writes n bytes hholds hasks hle hbytes =>
      obtain ⟨hne, -⟩ := hvalid.held fd message writes hholds
      have hpos : 0 < message.length := List.length_pos_of_ne_nil hne
      obtain ⟨n', hfull, hn⟩ := fullAsks_of_serverAsks hasks hpos
      have hstep : Step fullAsks s (.sent fd bytes) _ :=
        .sent hholds hfull (Nat.le_trans hle hn) hbytes
      have hsame : s.wrote fullAsks fd message (writes ++ [bytes.length]) =
          s.wrote serverAsks fd message (writes ++ [bytes.length]) := by
        unfold wrote at hwhole ⊢
        cases hnext : serverAsks message.length (writes ++ [bytes.length]) with
        | none =>
            rw [hnext] at hwhole
            have hsum := (hwhole (message, writes ++ [bytes.length]) (by simp)).sum_eq
            rw [fullAsks, if_neg (by simp only at hsum; omega)]
        | some n =>
            obtain ⟨n', hfull, -⟩ := fullAsks_of_serverAsks hnext hpos
            rw [hfull]
      rwa [hsame] at hstep
  | closed hended => exact .closed hended
  | failed => exact .failed
  | dropped => exact .dropped
  | quiet => exact .quiet

/-- A full echo answers with as many bytes as came. -/
theorem sum_of_full (run : Run (Step fullAsks) start events s) :
    (∀ p ∈ s.answered, p.1.length ≤ p.2.sum) := by
  induction run with
  | start => simp [start]
  | @next events s event s' run h ih =>
      cases h with
      | @sent fd message writes =>
          unfold wrote
          split
          · rename_i hdone
            intro p hp
            obtain hp | hp := List.mem_append.mp hp
            · exact ih p hp
            · obtain rfl := List.mem_singleton.mp hp
              rw [fullAsks] at hdone
              split at hdone
              · cases hdone
              · exact Nat.le_of_not_lt ‹_›
          · exact ih
      | _ => exact ih

/-- The server is a full echo exactly as long as all writes are whole. -/
theorem full_iff (run : Run (Step serverAsks) start events s) :
    Run (Step fullAsks) start events s ↔ ∀ p ∈ s.answered, Whole p.1.length p.2 := by
  constructor
  · intro full p hp
    obtain ⟨hne, hwrites⟩ := (Valid.run run).done p hp
    have hpos : 0 < p.1.length := List.length_pos_of_ne_nil hne
    rw [← hwrites.sum_eq_iff hpos]
    exact Nat.le_antisymm (hwrites.sum_le hpos) (sum_of_full full p hp)
  · intro hwhole
    induction run with
    | start => exact .start
    | next run h ih =>
        have hsubset := h.answered_subset
        exact (ih fun p hp => hwhole p (hsubset hp)).next (h.full (.run run) hwhole)

end Sessions

end IoUring.TcpEcho
