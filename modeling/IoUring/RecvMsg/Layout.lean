import IoUring.RecvMsg.Parse

/-!
# The layout of a multishot `RecvMsg` buffer

The kernel puts a header in front, then a field of `msg_namelen` bytes, then one
of `msg_controllen` bytes, then the payload. The header has the lengths of what
arrived; of each part only what fits its place is written, and every byte that
is not written keeps what an earlier use of the buffer left there. `parse` takes
such a buffer apart again.
-/

namespace IoUring.RecvMsg

open Foundation (slice overwrite leBytes of_slice slice_overwrite slice_overwrite_before)

/-- A message as it arrives, of lengths that 32 bits can tell. -/
structure Message where
  name : List UInt8
  control : List UInt8
  payload : List UInt8
  flags : UInt32
  name_lt : name.length < 2 ^ 32
  control_lt : control.length < 2 ^ 32
  payload_lt : payload.length < 2 ^ 32

/-- A buffer provided for `msghdr`: the header and both fields fit. -/
structure Provided (msghdr : Msghdr) extends ByteSlice where
  room : RecvMsgOut.prefixLen msghdr ≤ bytes.length

def Header.toBytes (header : Header) : List UInt8 :=
  leBytes header.namelen ++ leBytes header.controllen ++ leBytes header.payloadlen ++
    leBytes header.flags

@[simp] theorem Header.length_toBytes (header : Header) : header.toBytes.length = 16 := rfl

@[simp] theorem Header.ofBytes_toBytes (header : Header) :
    Header.ofBytes header.toBytes = header := by
  change Header.mk (Foundation.ofLeBytes (leBytes header.namelen))
    (Foundation.ofLeBytes (leBytes header.controllen))
    (Foundation.ofLeBytes (leBytes header.payloadlen))
    (Foundation.ofLeBytes (leBytes header.flags)) = header
  simp only [Foundation.ofLeBytes_leBytes]

def Message.header (msg : Message) : Header where
  namelen := .ofNat msg.name.length
  controllen := .ofNat msg.control.length
  payloadlen := .ofNat msg.payload.length
  flags := msg.flags

variable {msghdr : Msghdr}

/-- The bytes of the buffer once the kernel has written the message into it. -/
def filledBytes (msghdr : Msghdr) (msg : Message) (stale : List UInt8) : List UInt8 :=
  let nameLen := msghdr.msgNamelen.toNat
  let controlLen := msghdr.msgControllen.toNat
  let payloadStart := RecvMsgOut.prefixLen msghdr
  let bytes := overwrite stale 0 msg.header.toBytes
  let bytes := overwrite bytes 16 (msg.name.take nameLen)
  let bytes := overwrite bytes (16 + nameLen) (msg.control.take controlLen)
  overwrite bytes payloadStart (msg.payload.take (stale.length - payloadStart))

/-- The four writes keep the length, and each part stands at its place, since the
later writes are behind it. -/
theorem filledBytes_spec (msg : Message) {stale : List UInt8}
    (room : RecvMsgOut.prefixLen msghdr ≤ stale.length) :
    let bytes := filledBytes msghdr msg stale
    let nameLen := msghdr.msgNamelen.toNat
    let controlLen := msghdr.msgControllen.toNat
    let payloadStart := RecvMsgOut.prefixLen msghdr
    bytes.length = stale.length ∧
      bytes.take 16 = msg.header.toBytes ∧
      (bytes.drop 16).take (msg.name.take nameLen).length = msg.name.take nameLen ∧
      (bytes.drop (16 + nameLen)).take (msg.control.take controlLen).length =
        msg.control.take controlLen ∧
      (bytes.drop payloadStart).take (msg.payload.take (stale.length - payloadStart)).length =
        msg.payload.take (stale.length - payloadStart) := by
  intro bytes nameLen controlLen payloadStart
  have hstart : payloadStart = 16 + nameLen + controlLen := rfl
  have hroom : payloadStart ≤ stale.length := room
  have hname : (msg.name.take nameLen).length ≤ nameLen := List.length_take_le _ _
  have hcontrol : (msg.control.take controlLen).length ≤ controlLen := List.length_take_le _ _
  have hpayload : (msg.payload.take (stale.length - payloadStart)).length ≤
      stale.length - payloadStart := List.length_take_le _ _
  have hheader : msg.header.toBytes.length = 16 := msg.header.length_toBytes
  let b₀ := overwrite stale 0 msg.header.toBytes
  let b₁ := overwrite b₀ 16 (msg.name.take nameLen)
  let b₂ := overwrite b₁ (16 + nameLen) (msg.control.take controlLen)
  have end₀ : 0 + msg.header.toBytes.length ≤ stale.length := by omega
  have h₀ : b₀.length = stale.length := Foundation.length_overwrite end₀
  have end₁ : 16 + (msg.name.take nameLen).length ≤ b₀.length := by omega
  have h₁ : b₁.length = stale.length := (Foundation.length_overwrite end₁).trans h₀
  have end₂ : 16 + nameLen + (msg.control.take controlLen).length ≤ b₁.length := by omega
  have h₂ : b₂.length = stale.length := (Foundation.length_overwrite end₂).trans h₁
  have end₃ : payloadStart + (msg.payload.take (stale.length - payloadStart)).length ≤
      b₂.length := by omega
  have before₃ {lo hi : Nat} (hhi : hi ≤ payloadStart) : slice bytes lo hi = slice b₂ lo hi :=
    slice_overwrite_before end₃ hhi
  have before₂ {lo hi : Nat} (hhi : hi ≤ 16 + nameLen) : slice b₂ lo hi = slice b₁ lo hi :=
    slice_overwrite_before end₂ hhi
  have before₁ {lo hi : Nat} (hhi : hi ≤ 16) : slice b₁ lo hi = slice b₀ lo hi :=
    slice_overwrite_before end₁ hhi
  refine ⟨(Foundation.length_overwrite end₃).trans h₂, ?_, ?_, ?_, ?_⟩
  · rw [← bytes.drop_zero]
    refine (of_slice ?_).2
    rw [before₃ (by omega), before₂ (by omega), before₁ (by omega)]
    exact slice_overwrite end₀ (by rw [hheader])
  · refine (of_slice ?_).2
    rw [before₃ (by omega), before₂ (by omega)]
    exact slice_overwrite end₁ rfl
  · refine (of_slice ?_).2
    rw [before₃ (by omega)]
    exact slice_overwrite end₂ rfl
  · exact (of_slice (slice_overwrite end₃ rfl)).2

/-- The buffer once the kernel has written the message into it. -/
def fill (msg : Message) (stale : Provided msghdr) : Provided msghdr where
  bytes := filledBytes msghdr msg stale.bytes
  length_lt := by
    rw [(filledBytes_spec msg stale.room).1]
    exact stale.length_lt
  room := by
    rw [(filledBytes_spec msg stale.room).1]
    exact stale.room

/-- What of a message reaches the application through a buffer of `size` bytes. -/
def received (msghdr : Msghdr) (msg : Message) (size : Nat) : RecvMsgOut where
  header := msg.header
  msghdrNameLen := msghdr.msgNamelen.toUInt64
  nameData := msg.name.take msghdr.msgNamelen.toNat
  controlData := msg.control.take msghdr.msgControllen.toNat
  payloadData := msg.payload.take (size - RecvMsgOut.prefixLen msghdr)

/-- Parsing takes the layout apart again; no stale byte has a part in the result. -/
theorem parse_fill (msg : Message) (stale : Provided msghdr) :
    RecvMsgOut.parse (fill msg stale).toByteSlice msghdr =
      some (.ok (received msghdr msg stale.bytes.length)) := by
  obtain ⟨hlength, hheader, hname, hcontrol, hpayload⟩ := filledBytes_spec msg stale.room
  have hnameLen : msg.header.namelen.toNat = msg.name.length :=
    UInt32.toNat_ofNat_of_lt' msg.name_lt
  have hcontrolLen : msg.header.controllen.toNat = msg.control.length :=
    UInt32.toNat_ofNat_of_lt' msg.control_lt
  have hpayloadLen : msg.header.payloadlen.toNat = msg.payload.length :=
    UInt32.toNat_ofNat_of_lt' msg.payload_lt
  rw [List.length_take, Nat.min_comm] at hname hcontrol hpayload
  rw [RecvMsgOut.parse_of_room (fill msg stale).room]
  simp only [RecvMsgOut.parsed, received, fill, hlength, hheader, Header.ofBytes_toBytes, hnameLen,
    hcontrolLen, hpayloadLen, hname, hcontrol, hpayload]

theorem isNameDataTruncated_received (msg : Message) (size : Nat) :
    (received msghdr msg size).isNameDataTruncated = true ↔
      msghdr.msgNamelen.toNat < msg.name.length := by
  have hnameLen : msg.header.namelen.toNat = msg.name.length :=
    UInt32.toNat_ofNat_of_lt' msg.name_lt
  simp only [RecvMsgOut.isNameDataTruncated, received, decide_eq_true_eq, gt_iff_lt,
    UInt64.lt_iff_toNat_lt, UInt32.toNat_toUInt64, hnameLen]

/-- `parse` inverts the layout: from every buffer the kernel filled it returns the
prefixes that fitted, the lengths and the flags of the message, whether the name was
cut, and the same from any other stale bytes. -/
theorem parse_inverts_layout (msg : Message) (stale : Provided msghdr) :
    ∃ out, RecvMsgOut.parse (fill msg stale).toByteSlice msghdr = some (.ok out) ∧
      out.nameData = msg.name.take msghdr.msgNamelen.toNat ∧
      out.controlData = msg.control.take msghdr.msgControllen.toNat ∧
      out.payloadData = msg.payload.take (stale.bytes.length - 16 - msghdr.msgNamelen.toNat -
        msghdr.msgControllen.toNat) ∧
      out.incomingNameLen.toNat = msg.name.length ∧
      out.incomingControlLen.toNat = msg.control.length ∧
      out.incomingPayloadLen.toNat = msg.payload.length ∧
      out.flags = msg.flags ∧
      (out.isNameDataTruncated = true ↔ msghdr.msgNamelen.toNat < msg.name.length) ∧
      ∀ stale' : Provided msghdr, stale'.bytes.length = stale.bytes.length →
        RecvMsgOut.parse (fill msg stale').toByteSlice msghdr = some (.ok out) := by
  refine ⟨received msghdr msg stale.bytes.length, parse_fill msg stale, rfl, rfl, ?_,
    UInt32.toNat_ofNat_of_lt' msg.name_lt, UInt32.toNat_ofNat_of_lt' msg.control_lt,
    UInt32.toNat_ofNat_of_lt' msg.payload_lt, rfl, isNameDataTruncated_received _ _, ?_⟩
  · rw [Nat.sub_sub, Nat.sub_sub, ← Nat.add_assoc]
    rfl
  · intro stale' hlength
    rw [parse_fill, hlength]

/-- A field of four bytes for a longer name, and no room for the payload. -/
example :
    RecvMsgOut.parse ⟨[6, 0, 0, 0, 0, 0, 0, 0, 3, 0, 0, 0, 32, 0, 0, 0, 1, 2, 3, 4], by decide⟩
      ⟨4, 0⟩ = some (.ok ⟨⟨6, 0, 3, 32⟩, 4, [1, 2, 3, 4], [], []⟩) := by
  decide +kernel

end IoUring.RecvMsg
