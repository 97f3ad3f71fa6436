import IoUring.Foundation.FlagWord
import IoUring.Foundation.Packed
import IoUring.Sys

/-!
# Completion queue entries
-/

namespace IoUring.Cqueue

/-- A 16-byte completion queue entry (CQE). -/
structure Entry where
  userData : UInt64
  res : Int32
  flags : UInt32
  deriving DecidableEq

/-- A 32-byte completion queue entry (CQE). -/
structure Entry32 where
  entry : Entry
  bigCqe : Vector UInt64 2
  deriving DecidableEq

/-- What both completion entry types provide, and their sizes in bytes. -/
class EntryMarker (E : Type) where
  buildFlags : UInt32
  userData : E → UInt64
  setUserData : E → UInt64 → E
  size : Nat

instance : EntryMarker Entry where
  buildFlags := 0
  userData entry := entry.userData
  setUserData entry userData := { entry with userData }
  size := 16

instance : EntryMarker Entry32 where
  buildFlags := Sys.ioringSetupCqe32
  userData entry := entry.entry.userData
  setUserData entry userData := { entry with entry.userData := userData }
  size := 32

/-- The types that implement the trait, which is sealed. -/
inductive EntryType where
  | entry
  | entry32
  deriving DecidableEq

def EntryType.buildFlags : EntryType → UInt32
  | .entry => EntryMarker.buildFlags Entry
  | .entry32 => EntryMarker.buildFlags Entry32

/-- `mem::size_of`. -/
def EntryType.size : EntryType → Nat
  | .entry => EntryMarker.size Entry
  | .entry32 => EntryMarker.size Entry32

/-! ## What the flags of a completion say -/

def bufferMore (flags : UInt32) : Bool := flags &&& Sys.ioringCqeFBufMore != 0

def bufferSelect (flags : UInt32) : Option UInt16 :=
  if flags &&& Sys.ioringCqeFBuffer != 0 then
    some (flags >>> Sys.ioringCqeBufferShift).toUInt16
  else none

def more (flags : UInt32) : Bool := flags &&& Sys.ioringCqeFMore != 0

def sockNonempty (flags : UInt32) : Bool := flags &&& Sys.ioringCqeFSockNonempty != 0

def notif (flags : UInt32) : Bool := flags &&& Sys.ioringCqeFNotif != 0

/-- The flags of a completion that used a buffer: its id above the lower half. -/
def bufferFlags (bid low : UInt16) : UInt32 :=
  bid.toUInt32 <<< Sys.ioringCqeBufferShift ||| low.toUInt32 ||| Sys.ioringCqeFBuffer

/-- Whatever the other flags are, the id that was packed is the id that is selected. -/
theorem bufferSelect_bufferFlags (bid low : UInt16) :
    bufferSelect (bufferFlags bid low) = some bid := by
  have hset : bufferFlags bid low &&& Sys.ioringCqeFBuffer ≠ 0 := by
    rw [bufferFlags, Foundation.or_and_self₃₂]
    decide
  have hlow : low.toNat >>> 16 = 0 := by
    have hlt := low.toNat_lt
    rw [Nat.shiftRight_eq_div_pow]
    omega
  have hhigh : (bid.toNat <<< 16 % 2 ^ 32) >>> 16 = bid.toNat := by
    have hlt := bid.toNat_lt
    rw [Nat.shiftLeft_eq, Nat.shiftRight_eq_div_pow]
    omega
  have hid : (bufferFlags bid low >>> Sys.ioringCqeBufferShift).toUInt16 = bid := by
    apply UInt16.toNat_inj.mp
    simp only [bufferFlags, Sys.ioringCqeFBuffer, Sys.ioringCqeBufferShift,
      UInt32.toNat_toUInt16, UInt32.toNat_shiftRight, UInt32.toNat_or, UInt32.toNat_shiftLeft,
      UInt16.toNat_toUInt32, UInt32.reduceToNat, Nat.reduceMod, Nat.shiftRight_or_distrib, hlow,
      hhigh, Nat.or_zero, Nat.reduceShiftRight]
    exact Nat.mod_eq_of_lt bid.toNat_lt
  rw [bufferSelect, if_pos (bne_iff_ne.mpr hset), hid]

/-! ## Entries are packed records -/

open Foundation (Packed)

instance : Packed Entry := .ofEquiv (A := UInt64 × Int32 × UInt32)
  { toFun := fun entry => (entry.userData, entry.res, entry.flags)
    invFun := fun (userData, res, flags) => { userData, res, flags }
    left_inv := fun _ => rfl
    right_inv := fun _ => rfl }

instance : Packed Entry32 := .ofEquiv (A := Entry × UInt64 × UInt64)
  { toFun := fun entry => (entry.entry, entry.bigCqe[0], entry.bigCqe[1])
    invFun := fun (entry, first, second) => { entry, bigCqe := #v[first, second] }
    left_inv := fun entry => by
      have hwords : #v[entry.bigCqe[0], entry.bigCqe[1]] = entry.bigCqe := by
        apply Vector.ext
        intro i hi
        match i, hi with
        | 0, _ => rfl
        | 1, _ => rfl
      exact congrArg (Entry32.mk entry.entry) hwords
    right_inv := fun _ => rfl }

/-- The type that a member of `EntryType` stands for. -/
def EntryType.Carrier : EntryType → Type
  | .entry => Entry
  | .entry32 => Entry32

instance (C : EntryType) : Packed C.Carrier :=
  match C with
  | .entry => inferInstanceAs (Packed Entry)
  | .entry32 => inferInstanceAs (Packed Entry32)

instance (C : EntryType) : EntryMarker C.Carrier :=
  match C with
  | .entry => inferInstanceAs (EntryMarker Entry)
  | .entry32 => inferInstanceAs (EntryMarker Entry32)

/-- The size of a type is the number of its values' bytes. -/
theorem EntryType.size_carrier (C : EntryType) : Packed.size C.Carrier = C.size := by
  cases C <;> rfl

end IoUring.Cqueue
