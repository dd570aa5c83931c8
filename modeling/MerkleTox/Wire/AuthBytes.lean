import MerkleTox.Wire.RoundTrip

/-! # The bytes that a signature covers

A wire form is signed as it is sent, with a separator for its encryption. A node is signed as
the wire form it would have, with a separator for its type. For an exception node that is
packed, the two agree on the admin track only, and only if packing leaves its payload alone.
-/

namespace MerkleTox.Wire

open Proto MerkleTox.Core

/-- Fields 1 to 6 of a wire form. -/
structure WireAuthData where
  parents : List NodeHash
  senderHint : BitVec 32
  encryptedRouting : Bytes
  payloadData : Bytes
  topologicalRank : Nat
  flags : BitVec 32

theorem senderHint_length : 4 < 2 ^ 32 := by norm_num

def senderHint : Codec (BitVec 32) := .word 32 4 senderHint_length rfl

def writeWireAuthData (data : WireAuthData) : Bytes :=
  writeArrayLen 6 ++ nodeHash.list.write data.parents ++ senderHint.write data.senderHint ++
    writeBin data.encryptedRouting ++ writeBin data.payloadData ++
    writeUint data.topologicalRank ++ writeUint data.flags.toNat

def contentSeparator : Bytes := utf8 "merkle-tox v1 content-sig"

def adminSeparator : Bytes := utf8 "merkle-tox v1 admin-sig"

/-- `WireFlags::ENCRYPTED`. -/
def isEncrypted (wire : WireNode) : Bool := wire.flags &&& 2 = 2

/-- `WireNode::serialize_for_auth`. -/
def serializeWireForAuth (wire : WireNode) : Bytes :=
  let wireAuth : WireAuthData :=
    { parents := wire.parents
      senderHint := wire.senderHint
      encryptedRouting := wire.encryptedRouting
      payloadData := wire.payloadData
      topologicalRank := wire.topologicalRank
      flags := wire.flags }
  let separator := if isEncrypted wire then contentSeparator else adminSeparator
  separator ++ writeWireAuthData wireAuth

/-- `MerkleNode::serialize_for_auth`. -/
def serializeNodeForAuth (node : MerkleNode) : Bytes :=
  let payloadData := applyPadding
    (toBe 8 (ofSigned 8 node.networkTimestamp) ++ writeContent node.content ++ node.metadata)
  let routing := Bytes32.toBytes node.senderPk.bytes ++ toBe 8 node.sequenceNumber.toNat
  let wireAuth : WireAuthData :=
    { parents := node.parents
      senderHint := 0
      encryptedRouting := routing
      payloadData := payloadData
      topologicalRank := node.topologicalRank
      flags := 0 }
  let separator :=
    match node.nodeType with
    | .admin => adminSeparator
    | .content => contentSeparator
  separator ++ writeWireAuthData wireAuth

/-- Where this encoding is signed, the signature does not cover itself; authoring relies on
that. -/
theorem serializeForAuth_unsigned [Primitives]
    (hwire : ∀ node : MerkleNode, Primitives.serializeForAuth node = serializeNodeForAuth node)
    (node : MerkleNode) (authentication : NodeAuth) :
    Primitives.serializeForAuth { node with authentication := authentication } =
      Primitives.serializeForAuth node := by
  rw [hwire, hwire]
  rfl

/-! ## Bytes that tell the forms apart -/

/-- The separators differ at the first letter behind the version. -/
theorem separators_ne (left right : Bytes) :
    adminSeparator ++ left ≠ contentSeparator ++ right := by
  intro heq
  have hletter := congrArg (fun bytes => bytes[14]?) heq
  have hadmin : (adminSeparator ++ left)[14]? = some 97 :=
    List.getElem?_append_left (by decide)
  have hcontent : (contentSeparator ++ right)[14]? = some 99 :=
    List.getElem?_append_left (by decide)
  simp only [hadmin, hcontent] at hletter
  exact absurd hletter (by decide)

/-- The flags come last. -/
theorem getLast?_writeWireAuthData (separator : Bytes) {data : WireAuthData} (flags : UInt8)
    (hflags : writeUint data.flags.toNat = [flags]) :
    (separator ++ writeWireAuthData data).getLast? = some flags := by
  rw [writeWireAuthData, hflags, ← List.append_assoc, List.getLast?_append]
  rfl

section Forms

variable [WireCrypto] {node : MerkleNode} {useCompression : Bool}

/-- The payload is sent in a compressed form, which is shorter. -/
def Compresses (node : MerkleNode) (useCompression : Bool) : Prop :=
  useCompression = true ∧ ∃ compressed, WireCrypto.compress (payloadOf node) = some compressed ∧
    compressed.length < (payloadOf node).length

theorem compressPayload_of_compresses (h : Compresses node useCompression) :
    (compressPayload (payloadOf node) useCompression).2 = 1 := by
  obtain ⟨rfl, compressed, hcompressed, hlt⟩ := h
  rw [compressPayload, if_pos rfl, hcompressed]
  exact congrArg Prod.snd (if_pos hlt)

theorem compressPayload_of_not_compresses (h : ¬ Compresses node useCompression) :
    compressPayload (payloadOf node) useCompression = (payloadOf node, 0) := by
  unfold compressPayload
  split
  next hcompression =>
    split
    next compressed hcompressed =>
      exact if_neg fun hlt => h ⟨hcompression, compressed, hcompressed, hlt⟩
    next => rfl
  next => rfl

theorem not_isEncrypted_packWire :
    isEncrypted (packWire node .exception useCompression) = false := by
  by_cases h : Compresses node useCompression
  · simp [isEncrypted, packWire, compressPayload_of_compresses h]
  · simp [isEncrypted, packWire, compressPayload_of_not_compresses h]

/-- A packed exception node is signed under the separator of the admin track. -/
theorem serializeWireForAuth_packWire :
    serializeWireForAuth (packWire node .exception useCompression) =
      adminSeparator ++ writeWireAuthData
        { parents := node.parents
          senderHint := 0
          encryptedRouting :=
            Bytes32.toBytes node.senderPk.bytes ++ toBe 8 node.sequenceNumber.toNat
          payloadData := applyPadding (compressPayload (payloadOf node) useCompression).1
          topologicalRank := node.topologicalRank
          flags := (compressPayload (payloadOf node) useCompression).2 } := by
  rw [serializeWireForAuth, not_isEncrypted_packWire]
  rfl

/-- A node and its packed form are signed alike exactly on the admin track, and uncompressed. -/
theorem serializeForAuth_agree_iff (node : MerkleNode) (useCompression : Bool) :
    serializeWireForAuth (packWire node .exception useCompression) = serializeNodeForAuth node ↔
      node.nodeType = .admin ∧ ¬ Compresses node useCompression := by
  rw [serializeWireForAuth_packWire, serializeNodeForAuth]
  constructor
  · intro heq
    cases htype : node.nodeType with
    | content =>
        rw [htype] at heq
        exact absurd heq (separators_ne _ _)
    | admin =>
        refine ⟨rfl, fun hcompresses => ?_⟩
        have hflags := compressPayload_of_compresses hcompresses
        have hlast := congrArg List.getLast? heq
        rw [getLast?_writeWireAuthData _ 1 (by rw [hflags]; rfl),
          getLast?_writeWireAuthData _ 0 rfl] at hlast
        exact absurd hlast (by decide)
  · rintro ⟨htype, hcompresses⟩
    rw [htype, compressPayload_of_not_compresses hcompresses]
    rfl

end Forms

namespace Reference

/-- A new title is signed in one form and does not verify in the other. -/
theorem serializeForAuth_differ :
    ¬ ∀ (node : MerkleNode) (useCompression : Bool), node.isExceptionNode →
      serializeWireForAuth (packWire node .exception useCompression) =
        serializeNodeForAuth node := by
  intro hagree
  have heq := hagree (signed (.control (.setTitle "a"))) false rfl
  rw [serializeWireForAuth_packWire] at heq
  exact separators_ne _ _ heq

end Reference

end MerkleTox.Wire
