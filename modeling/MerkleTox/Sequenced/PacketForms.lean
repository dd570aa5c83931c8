import MerkleTox.Proto.Lengths
import MerkleTox.Sequenced.AnyOrder
import MerkleTox.Sequenced.Turns

/-! # The packets on the wire

The derived form of a packet, and that every packet a session sends fits a custom packet of
the transport: the fragment size, the limit on the holes of a NACK and the check on a
datagram leave room for the widest headers.
-/

namespace MerkleTox.Sequenced

open Proto Library

/-! ## Forms -/

namespace Forms

/-- `protocol_newtype!`: a flat structure with one field. -/
def newtype {α : Type} (inner : ToxProto α) : ToxProto (α × Unit) := .flat inner .nil

def messageId : ToxProto (BitVec 32 × Unit) := newtype (.unsigned 4 false)

def fragmentIndex : ToxProto (BitVec 16 × Unit) := newtype (.unsigned 2 false)

def fragmentCount : ToxProto (BitVec 16 × Unit) := newtype (.unsigned 2 false)

def timestampMs : ToxProto (BitVec 64 × Unit) := newtype (.signed 8)

/-- An enumeration of variants without fields. -/
def messageType : ToxProto MessageType where
  size := none
  isByteLike := false
  flatLen _ := none
  serialize messageType := some (writeU8 messageType.code)
  deserialize input := do
    let ((idx, len), rest) ← readEnumHeader input
    let messageType ← MessageType.ofCode idx
    if len ≠ 1 then none
    some (messageType, rest)
  serializeFlat _ := none
  deserializeFlat _ := none

def bytes : ToxProto (List (BitVec 8)) := .vec (.unsigned 1 true)

abbrev DataValue :=
  (BitVec 32 × Unit) × (BitVec 16 × Unit) × (BitVec 16 × Unit) × List (BitVec 8) × Unit

def dataFields : Fields DataValue :=
  .cons messageId (.cons fragmentIndex (.cons fragmentCount (.cons bytes .nil)))

abbrev AckValue :=
  (BitVec 32 × Unit) × (BitVec 16 × Unit) × BitVec 64 × (BitVec 16 × Unit) × Unit

def selectiveAckFields : Fields AckValue :=
  .cons messageId (.cons fragmentIndex (.cons (.unsigned 8 false) (.cons fragmentCount .nil)))

abbrev NackValue := (BitVec 32 × Unit) × List (BitVec 16 × Unit) × Unit

def nackFields : Fields NackValue := .cons messageId (.cons (.deque fragmentIndex) .nil)

abbrev PongValue := (BitVec 64 × Unit) × (BitVec 64 × Unit) × (BitVec 64 × Unit) × Unit

def pongFields : Fields PongValue :=
  .cons timestampMs (.cons timestampMs (.cons timestampMs .nil))

abbrev DatagramValue := MessageType × List (BitVec 8) × Unit

def datagramFields : Fields DatagramValue := .cons messageType (.cons bytes .nil)

abbrev PacketValue :=
  DataValue ⊕ (AckValue × Unit) ⊕ (NackValue × Unit) ⊕ ((BitVec 64 × Unit) × Unit) ⊕
    PongValue ⊕ DatagramValue ⊕ Empty

/-- `Packet`: its variants have the discriminants from zero on. -/
def packetVariants : Variants PacketValue :=
  .payload 0 dataFields <|
  .payload 1 (.cons (.struct selectiveAckFields) .nil) <|
  .payload 2 (.cons (.struct nackFields) .nil) <|
  .payload 3 (.cons timestampMs .nil) <|
  .payload 4 pongFields <|
  .payload 5 datagramFields .nil

/-- A fragment index, a count of fragments or a window. -/
def u16 (value : Nat) : BitVec 16 × Unit := (BitVec.ofNat 16 value, ())

/-- A time stamp. -/
def i64 (value : Int) : BitVec 64 × Unit := (BitVec.ofInt 64 value, ())

def byteValues (data : Bytes) : List (BitVec 8) := data.map UInt8.toBitVec

/-- The fields of a packet at the widths that they have in the source. -/
def packetValue : Packet → PacketValue
  | .data id index total fragment =>
      .inl ((id, ()), u16 index, u16 total, byteValues fragment, ())
  | .ack ack =>
      .inr (.inl (((ack.messageId, ()), u16 ack.baseIndex, ack.bitmask, u16 ack.rwnd, ()), ()))
  | .nack nack =>
      .inr (.inr (.inl (((nack.messageId, ()), nack.missingIndices.map u16, ()), ())))
  | .ping t1 => .inr (.inr (.inr (.inl (i64 t1, ()))))
  | .pong t1 t2 t3 => .inr (.inr (.inr (.inr (.inl (i64 t1, i64 t2, i64 t3, ())))))
  | .datagram messageType content =>
      .inr (.inr (.inr (.inr (.inr (.inl (messageType, byteValues content, ()))))))

end Forms

/-- `serialize(&packet)`. -/
def Packet.serialize (packet : Packet) : Option Bytes :=
  Forms.packetVariants.serialize (Forms.packetValue packet)

example : (Packet.nack ⟨300, [1, 200]⟩).serialize =
    some [146, 2, 146, 205, 1, 44, 146, 1, 204, 200] := by decide

/-- The packet is written, and it is no longer than a custom packet may be. -/
def Packet.FitsTransport (packet : Packet) : Prop :=
  ∃ bytes, packet.serialize = some bytes ∧ bytes.length ≤ maxToxPacketSize

/-- The limits that are put on packets where they are made. -/
def Packet.Bounded : Packet → Prop
  | .data _ _ _ fragment => fragment.length ≤ OutgoingMessage.defaultPayloadMtu
  | .nack holes => holes.missingIndices.length ≤ 128
  | .datagram _ content => content.length + 10 ≤ maxToxPacketSize
  | .ack _ | .ping _ | .pong .. => True

/-! ## Sizes -/

namespace Forms

theorem within_newtype {α : Type} {inner : ToxProto α} {value : α} {bound : Nat}
    (h : inner.Within value bound) : (newtype inner).Within (value, ()) bound :=
  ToxProto.within_flat h

theorem within_messageId (id : BitVec 32) : messageId.Within (id, ()) 5 :=
  within_newtype (@ToxProto.within_unsigned 4 (by simp) false id)

theorem within_u16 (value : Nat) : (newtype (.unsigned 2 false)).Within (u16 value) 3 :=
  within_newtype (@ToxProto.within_unsigned 2 (by simp) false _)

theorem within_i64 (value : Int) : timestampMs.Within (i64 value) 9 :=
  within_newtype (ToxProto.within_signed _)

theorem within_messageType (value : MessageType) : messageType.Within value 1 :=
  ⟨_, rfl, (length_writeU8_of_lt value.code_lt).le⟩

theorem within_byteValues {data : Bytes} (hlen : data.length < 65536) :
    bytes.Within (byteValues data) (3 + data.length) := by
  have hvalues : (byteValues data).length = data.length := List.length_map _
  rw [← hvalues] at hlen ⊢
  exact ToxProto.within_bytes hlen

theorem within_dataFields (id : MessageId) (index total : Nat) {fragment : Bytes}
    (hlen : fragment.length < 65536) :
    dataFields.Within ((id, ()), u16 index, u16 total, byteValues fragment, ())
      (5 + (3 + (3 + (3 + fragment.length + 0)))) :=
  Fields.within_cons (within_messageId id) <| Fields.within_cons (within_u16 index) <|
    Fields.within_cons (within_u16 total) <|
      Fields.within_cons (within_byteValues hlen) Fields.within_nil

theorem within_selectiveAckFields (id : MessageId) (index rwnd : Nat) (bitmask : BitVec 64) :
    selectiveAckFields.Within ((id, ()), u16 index, bitmask, u16 rwnd, ())
      (5 + (3 + (9 + (3 + 0)))) :=
  Fields.within_cons (within_messageId id) <| Fields.within_cons (within_u16 index) <|
    Fields.within_cons (@ToxProto.within_unsigned 8 (by simp) false bitmask) <|
      Fields.within_cons (within_u16 rwnd) Fields.within_nil

theorem within_nackFields (id : MessageId) {indices : List Nat} (hlen : indices.length ≤ 128) :
    nackFields.Within ((id, ()), indices.map u16, ()) (5 + (3 + 3 * indices.length + 0)) := by
  have hindices : (ToxProto.deque fragmentIndex).Within (indices.map u16)
      (3 + 3 * (indices.map u16).length) := by
    refine ToxProto.within_deque (fun value hmem => ?_) (by rw [List.length_map]; omega)
    obtain ⟨index, -, rfl⟩ := List.mem_map.mp hmem
    exact within_u16 index
  rw [List.length_map] at hindices
  exact Fields.within_cons (within_messageId id) (Fields.within_cons hindices Fields.within_nil)

theorem within_pongFields (t1 t2 t3 : Int) :
    pongFields.Within (i64 t1, i64 t2, i64 t3, ()) (9 + (9 + (9 + 0))) :=
  Fields.within_cons (within_i64 t1) <| Fields.within_cons (within_i64 t2) <|
    Fields.within_cons (within_i64 t3) Fields.within_nil

theorem within_datagramFields (messageType : MessageType) {content : Bytes}
    (hlen : content.length < 65536) :
    datagramFields.Within (messageType, byteValues content, ()) (1 + (3 + content.length + 0)) :=
  Fields.within_cons (within_messageType messageType)
    (Fields.within_cons (within_byteValues hlen) Fields.within_nil)

end Forms

open Forms in
/-- Headers and numbers of any width leave room for what the limits allow. -/
theorem Packet.Bounded.fits {packet : Packet} (h : packet.Bounded) : packet.FitsTransport := by
  suffices hwithin : packetVariants.Within (packetValue packet) maxToxPacketSize from hwithin
  unfold maxToxPacketSize
  -- The other variants are skipped over; each has its discriminant in one byte.
  cases packet with
  | data id index total fragment =>
      have hlen : fragment.length ≤ 1353 := h
      have hfields := within_dataFields id index total (by omega : fragment.length < 65536)
      exact (Variants.within_payload (by decide) hfields (by decide)).mono (by omega)
  | ack ack =>
      have hfields := within_selectiveAckFields ack.messageId ack.baseIndex ack.rwnd ack.bitmask
      have hpayload := Fields.within_cons (ToxProto.within_struct hfields (by decide))
        Fields.within_nil
      exact Variants.within_payload_later
        ((Variants.within_payload (by decide) hpayload (by decide)).mono (by omega))
  | nack nack =>
      have hlen : nack.missingIndices.length ≤ 128 := h
      have hfields := within_nackFields nack.messageId hlen
      have hpayload := Fields.within_cons (ToxProto.within_struct hfields (by decide))
        Fields.within_nil
      exact Variants.within_payload_later (Variants.within_payload_later
        ((Variants.within_payload (by decide) hpayload (by decide)).mono (by omega)))
  | ping t1 =>
      have hpayload := Fields.within_cons (within_i64 t1) Fields.within_nil
      exact Variants.within_payload_later (Variants.within_payload_later
        (Variants.within_payload_later
          ((Variants.within_payload (by decide) hpayload (by decide)).mono (by omega))))
  | pong t1 t2 t3 =>
      have hfields := within_pongFields t1 t2 t3
      exact Variants.within_payload_later (Variants.within_payload_later
        (Variants.within_payload_later (Variants.within_payload_later
          ((Variants.within_payload (by decide) hfields (by decide)).mono (by omega)))))
  | datagram messageType content =>
      have hlen : content.length + 10 ≤ 1373 := h
      have hfields := within_datagramFields messageType (by omega : content.length < 65536)
      exact Variants.within_payload_later (Variants.within_payload_later
        (Variants.within_payload_later (Variants.within_payload_later
          (Variants.within_payload_later
            ((Variants.within_payload (by decide) hfields (by decide)).mono (by omega))))))

end MerkleTox.Sequenced
