import IoUring.Foundation.ByteField
import IoUring.Foundation.Usize

/-!
# Parsing a multishot `RecvMsg` completion

`RecvMsgOut::parse` over a buffer of which only the first bytes are a header.
Where the source would panic (an addition of `usize` that overflows, a range
outside the buffer) the result is `none`.
-/

namespace IoUring.RecvMsg

open Foundation (slice checkedAdd checkedSub checkedAdd_of_lt checkedAdd_of_ge checkedSub_of_le)

/-- A byte slice; no object is longer than `isize::MAX`. -/
structure ByteSlice where
  bytes : List UInt8
  length_lt : bytes.length < 2 ^ 63

def ByteSlice.len (buffer : ByteSlice) : UInt64 := .ofNat buffer.bytes.length

/-- The two fields of `libc::msghdr` that matter here. -/
structure Msghdr where
  msgNamelen : UInt32
  msgControllen : UInt64

/-- `io_uring_recvmsg_out`. -/
structure Header where
  namelen : UInt32
  controllen : UInt32
  payloadlen : UInt32
  flags : UInt32
  deriving DecidableEq

/-- The four words in the order of the structure's fields. -/
def Header.ofBytes (raw : List UInt8) : Header where
  namelen := Foundation.ofLeBytes (raw.take 4)
  controllen := Foundation.ofLeBytes ((raw.drop 4).take 4)
  payloadlen := Foundation.ofLeBytes ((raw.drop 8).take 4)
  flags := Foundation.ofLeBytes ((raw.drop 12).take 4)

structure RecvMsgOut where
  header : Header
  msghdrNameLen : UInt64
  nameData : List UInt8
  controlData : List UInt8
  payloadData : List UInt8
  deriving DecidableEq

namespace RecvMsgOut

/-- `DATA_START`, the size of the header. -/
def dataStart : UInt64 := 16

/-- The test at the head of `parse`. -/
def isTooShort (buffer : ByteSlice) (msghdr : Msghdr) : Bool :=
  (checkedAdd dataStart msghdr.msgNamelen.toUInt64).bind (checkedAdd · msghdr.msgControllen)
    |>.map (fun headerLen => decide (buffer.len < headerLen))
    |>.getD true

def parse (buffer : ByteSlice) (msghdr : Msghdr) : Option (Except Unit RecvMsgOut) := do
  let msghdrNameLen := msghdr.msgNamelen.toUInt64
  let msghdrControlLen := msghdr.msgControllen
  if isTooShort buffer msghdr then some (.error ())
  else
    let header := Header.ofBytes (← slice buffer.bytes 0 dataStart.toNat)
    let nameStart := dataStart
    let nameDataEnd ← checkedAdd nameStart (min header.namelen.toUInt64 msghdrNameLen)
    let controlStart ← checkedAdd nameStart msghdrNameLen
    let nameData ← slice buffer.bytes nameStart.toNat nameDataEnd.toNat
    let controlDataEnd ← checkedAdd controlStart (min header.controllen.toUInt64 msghdrControlLen)
    let payloadStart ← checkedAdd controlStart msghdrControlLen
    let controlData ← slice buffer.bytes controlStart.toNat controlDataEnd.toNat
    let payloadFieldLen ← checkedSub buffer.len payloadStart
    let payloadDataEnd ←
      checkedAdd payloadStart (min header.payloadlen.toUInt64 payloadFieldLen)
    let payloadData ← slice buffer.bytes payloadStart.toNat payloadDataEnd.toNat
    some (.ok { header, msghdrNameLen, nameData, controlData, payloadData })

variable (out : RecvMsgOut)

def incomingNameLen : UInt32 := out.header.namelen

def isNameDataTruncated : Bool := out.header.namelen.toUInt64 > out.msghdrNameLen

def incomingControlLen : UInt32 := out.header.controllen

/-- `MSG_CTRUNC`. -/
def isControlDataTruncated : Bool := out.header.flags &&& 8 != 0

/-- `MSG_TRUNC`. -/
def isPayloadTruncated : Bool := out.header.flags &&& 32 != 0

def incomingPayloadLen : UInt32 := out.header.payloadlen

def flags : UInt32 := out.header.flags

end RecvMsgOut

theorem ByteSlice.toNat_len (buffer : ByteSlice) : buffer.len.toNat = buffer.bytes.length := by
  have := buffer.length_lt
  rw [len, UInt64.toNat_ofNat']
  omega

/-- A field that lies in the buffer: its data end and the field end do not
overflow, and the data is what was received of it. -/
theorem field_of_room (buffer : ByteSlice) {start width : UInt64} (incoming : UInt64)
    (h : start.toNat + width.toNat ≤ buffer.bytes.length) :
    ∃ dataEnd fieldEnd, checkedAdd start (min incoming width) = some dataEnd ∧
      checkedAdd start width = some fieldEnd ∧
      fieldEnd.toNat = start.toNat + width.toNat ∧
      slice buffer.bytes start.toNat dataEnd.toNat =
        some ((buffer.bytes.drop start.toNat).take (min incoming.toNat width.toNat)) := by
  have hbuffer := buffer.length_lt
  have hmin : (min incoming width).toNat = min incoming.toNat width.toNat :=
    Foundation.toNat_min _ _
  obtain ⟨dataEnd, hdata, hdataNat⟩ := checkedAdd_of_lt
    (show start.toNat + (min incoming width).toNat < 2 ^ 64 by omega)
  obtain ⟨fieldEnd, hfield, hfieldNat⟩ := checkedAdd_of_lt
    (show start.toNat + width.toNat < 2 ^ 64 by omega)
  refine ⟨dataEnd, fieldEnd, hdata, hfield, hfieldNat, ?_⟩
  rw [Foundation.slice_of_le (by omega) (by omega)]
  congr 2
  omega

namespace RecvMsgOut

variable {buffer : ByteSlice} {msghdr : Msghdr}

/-- The bytes that come before the payload: the header and the two fields of fixed length. -/
def prefixLen (msghdr : Msghdr) : Nat := 16 + msghdr.msgNamelen.toNat + msghdr.msgControllen.toNat

/-- The test refuses exactly the buffers in which the header and the fields do not fit;
a sum that overflows exceeds every length. -/
theorem isTooShort_iff :
    isTooShort buffer msghdr = true ↔ buffer.bytes.length < prefixLen msghdr := by
  have hbuffer := buffer.length_lt
  have hname := msghdr.msgNamelen.toNat_lt
  obtain ⟨nameEnd, hnameEnd, hnameEndNat⟩ := checkedAdd_of_lt
    (show dataStart.toNat + msghdr.msgNamelen.toUInt64.toNat < 2 ^ 64 by
      rw [UInt32.toNat_toUInt64, show dataStart.toNat = 16 from rfl]
      omega)
  rw [UInt32.toNat_toUInt64, show dataStart.toNat = 16 from rfl] at hnameEndNat
  simp only [isTooShort, hnameEnd, Option.bind_some, prefixLen, ← hnameEndNat]
  by_cases hsum : nameEnd.toNat + msghdr.msgControllen.toNat < 2 ^ 64
  · obtain ⟨headerLen, hlen, hlenNat⟩ := checkedAdd_of_lt hsum
    simp only [hlen, Option.map_some, Option.getD_some, decide_eq_true_eq, UInt64.lt_iff_toNat_lt,
      buffer.toNat_len, hlenNat]
  · simp only [checkedAdd_of_ge (Nat.not_lt.mp hsum), Option.map_none, Option.getD_none, true_iff]
    omega

theorem parse_of_isTooShort (h : buffer.bytes.length < prefixLen msghdr) :
    parse buffer msghdr = some (.error ()) := by
  simp only [parse, isTooShort_iff.mpr h, if_true]

/-- What `parse` returns when the header and the fields fit. -/
def parsed (buffer : ByteSlice) (msghdr : Msghdr) : RecvMsgOut :=
  let bytes := buffer.bytes
  let header := Header.ofBytes (bytes.take 16)
  let nameLen := msghdr.msgNamelen.toNat
  let controlLen := msghdr.msgControllen.toNat
  { header
    msghdrNameLen := msghdr.msgNamelen.toUInt64
    nameData := (bytes.drop 16).take (min header.namelen.toNat nameLen)
    controlData := (bytes.drop (16 + nameLen)).take (min header.controllen.toNat controlLen)
    payloadData := (bytes.drop (prefixLen msghdr)).take
      (min header.payloadlen.toNat (bytes.length - prefixLen msghdr)) }

/-- Then nothing panics, and every field is the range that the lengths say. -/
theorem parse_of_room (h : prefixLen msghdr ≤ buffer.bytes.length) :
    parse buffer msghdr = some (.ok (parsed buffer msghdr)) := by
  have hshort : isTooShort buffer msghdr = false := by
    rw [← Bool.not_eq_true, isTooShort_iff, Nat.not_lt]
    exact h
  have hstart : dataStart.toNat = 16 := rfl
  have hnameLen := msghdr.msgNamelen.toNat_toUInt64
  have hroom : 16 + msghdr.msgNamelen.toNat + msghdr.msgControllen.toNat ≤ buffer.bytes.length := h
  have hheader : slice buffer.bytes 0 dataStart.toNat = some (buffer.bytes.take 16) :=
    Foundation.slice_of_le (Nat.zero_le _) (by omega)
  obtain ⟨nameEnd, controlStart, hnameEnd, hcontrolStart, hcontrolNat, hname⟩ :=
    field_of_room buffer (Header.ofBytes (buffer.bytes.take 16)).namelen.toUInt64
      (show dataStart.toNat + msghdr.msgNamelen.toUInt64.toNat ≤ _ by omega)
  obtain ⟨controlEnd, payloadStart, hcontrolEnd, hpayloadStart, hpayloadNat, hcontrol⟩ :=
    field_of_room buffer (Header.ofBytes (buffer.bytes.take 16)).controllen.toUInt64
      (show controlStart.toNat + msghdr.msgControllen.toNat ≤ _ by omega)
  obtain ⟨fieldLen, hfieldLen, hfieldNat⟩ :=
    checkedSub_of_le (show payloadStart.toNat ≤ buffer.len.toNat by rw [buffer.toNat_len]; omega)
  rw [buffer.toNat_len] at hfieldNat
  obtain ⟨payloadEnd, -, hpayloadEnd, -, -, hpayload⟩ :=
    field_of_room buffer (Header.ofBytes (buffer.bytes.take 16)).payloadlen.toUInt64
      (show payloadStart.toNat + fieldLen.toNat ≤ _ by omega)
  have hprefix : payloadStart.toNat = prefixLen msghdr := by
    rw [prefixLen]
    omega
  simp only [parse, hshort, Bool.false_eq_true, if_false, hheader, Option.bind_eq_bind,
    Option.bind_some, hnameEnd, hcontrolStart, hname, hcontrolEnd, hpayloadStart, hcontrol,
    hfieldLen, hpayloadEnd, hpayload]
  simp only [parsed, hprefix, hcontrolNat, hfieldNat, hnameLen, hstart, UInt32.toNat_toUInt64]

/-- Which bytes of the buffer a result shows: the name and the control data from the front of
their fields, the payload from behind both, and each at most as long as its place. -/
structure Shows (buffer : ByteSlice) (msghdr : Msghdr) (out : RecvMsgOut) : Prop where
  header_eq : out.header = Header.ofBytes (buffer.bytes.take 16)
  name : slice buffer.bytes 16 (16 + min out.header.namelen.toNat msghdr.msgNamelen.toNat) =
    some out.nameData
  control : slice buffer.bytes (16 + msghdr.msgNamelen.toNat)
    (16 + msghdr.msgNamelen.toNat + min out.header.controllen.toNat msghdr.msgControllen.toNat) =
      some out.controlData
  payload : slice buffer.bytes (prefixLen msghdr)
    (prefixLen msghdr +
      min out.header.payloadlen.toNat (buffer.bytes.length - prefixLen msghdr)) =
      some out.payloadData
  name_before : 16 + min out.header.namelen.toNat msghdr.msgNamelen.toNat ≤
    16 + msghdr.msgNamelen.toNat
  control_before : 16 + msghdr.msgNamelen.toNat +
    min out.header.controllen.toNat msghdr.msgControllen.toNat ≤ prefixLen msghdr
  truncated_iff : out.isNameDataTruncated = true ↔
    out.nameData.length < out.incomingNameLen.toNat

theorem parsed_shows (h : prefixLen msghdr ≤ buffer.bytes.length) :
    (parsed buffer msghdr).Shows buffer msghdr := by
  have hroom : 16 + msghdr.msgNamelen.toNat + msghdr.msgControllen.toNat ≤ buffer.bytes.length := h
  have hprefix : prefixLen msghdr = 16 + msghdr.msgNamelen.toNat + msghdr.msgControllen.toNat := rfl
  constructor
  · rfl
  · rw [Foundation.slice_of_le (by omega) (by omega), Nat.add_sub_cancel_left]
    rfl
  · rw [Foundation.slice_of_le (by omega) (by omega), Nat.add_sub_cancel_left]
    rfl
  · rw [Foundation.slice_of_le (by omega) (by omega), Nat.add_sub_cancel_left]
    rfl
  · omega
  · omega
  · simp only [isNameDataTruncated, incomingNameLen, parsed, decide_eq_true_eq, gt_iff_lt,
      UInt64.lt_iff_toNat_lt, UInt32.toNat_toUInt64, List.length_take, List.length_drop]
    omega

/-- On every buffer and every message header `parse` returns without a panic: an error exactly
if the header and the fields overflow `usize` or exceed the buffer, and otherwise three ranges
of the buffer, one behind the other. -/
theorem parse_exact (buffer : ByteSlice) (msghdr : Msghdr) :
    (∃ result, parse buffer msghdr = some result) ∧
      (parse buffer msghdr = some (.error ()) ↔
        2 ^ 64 ≤ 16 + msghdr.msgNamelen.toNat + msghdr.msgControllen.toNat ∨
          buffer.bytes.length < 16 + msghdr.msgNamelen.toNat + msghdr.msgControllen.toNat) ∧
      ∀ out, parse buffer msghdr = some (.ok out) → out.Shows buffer msghdr := by
  have hbuffer := buffer.length_lt
  have hprefix : prefixLen msghdr = 16 + msghdr.msgNamelen.toNat + msghdr.msgControllen.toNat := rfl
  by_cases h : buffer.bytes.length < prefixLen msghdr
  · have hparse := parse_of_isTooShort h
    refine ⟨⟨_, hparse⟩, iff_of_true hparse (.inr h), ?_⟩
    intro out hout
    rw [hparse] at hout
    cases hout
  · have hroom := Nat.le_of_not_lt h
    have hparse := parse_of_room hroom
    refine ⟨⟨_, hparse⟩, iff_of_false ?_ (by omega), ?_⟩
    · rw [hparse]
      exact nofun
    · intro out hout
      rw [hparse] at hout
      cases hout
      exact parsed_shows hroom

end RecvMsgOut

end IoUring.RecvMsg
