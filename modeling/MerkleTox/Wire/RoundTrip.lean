import MerkleTox.Core.Reference
import MerkleTox.Wire.Packing

/-! # What is packed can be unpacked

The steps of packing undo each other: padding, compression, encryption and the encoding of the
content. The nonce of the proof of work is not sent, and neither is the author of an exception
node.
-/

namespace MerkleTox.Wire

open Proto MerkleTox.Core

/-! ## Padding -/

theorem dropWhile_zeros (n : Nat) (rest : Bytes) :
    (List.replicate n (0 : UInt8) ++ rest).dropWhile (· = 0) = rest.dropWhile (· = 0) := by
  induction n with
  | zero => rfl
  | succ n ih => simp [List.replicate_succ, ih]

/-- Padding never cuts off. -/
theorem applyPadding_eq (data : Bytes) :
    ∃ zeros, applyPadding data = data ++ [0x80] ++ List.replicate zeros 0 := by
  have hroom : (data ++ [0x80]).length ≤
      max (2 ^ Nat.clog 2 (data ++ [0x80]).length) minPaddingBin :=
    (Nat.le_pow_clog (by decide) _).trans (le_max_left _ _)
  exact ⟨_, by rw [applyPadding, resize, List.take_of_length_le hroom]⟩

theorem removePadding_applyPadding (data : Bytes) : removePadding (applyPadding data) = .ok data := by
  obtain ⟨zeros, hpadded⟩ := applyPadding_eq data
  have hremoved : Fs.removePadding (applyPadding data) = some data := by
    rw [hpadded, Fs.removePadding, List.reverse_append, List.reverse_replicate, dropWhile_zeros]
    simp
  rw [removePadding, hremoved]

/-! ## The payload -/

section Payload

variable [WireCrypto]

/-- Decompression undoes compression, and each cipher is undone under the same key and nonce. -/
structure CryptoLaws : Prop where
  decompress : ∀ data compressed, WireCrypto.compress data = some compressed →
    WireCrypto.decompress compressed = some data
  applyKeystream : ∀ key nonce data,
    WireCrypto.applyKeystream key nonce (WireCrypto.applyKeystream key nonce data) = data
  decryptDetached : ∀ key nonce aad data,
    WireCrypto.decryptDetached key nonce aad (WireCrypto.encryptDetached key nonce aad data).1
      (WireCrypto.encryptDetached key nonce aad data).2 = some data
  ciphertext : ∀ key nonce aad data,
    (WireCrypto.encryptDetached key nonce aad data).1.length = data.length
  tag : ∀ key nonce aad data, (WireCrypto.encryptDetached key nonce aad data).2.length = 16

/-- The numbers of a node are within their types and its content can be read back. -/
structure FitsNode (node : MerkleNode) : Prop where
  networkTimestamp : -2 ^ 63 ≤ node.networkTimestamp ∧ node.networkTimestamp < 2 ^ 63
  content : FitsContent node.content

variable {node : MerkleNode} {wire : WireNode} {useCompression : Bool}

theorem compressPayload_cases (hlaws : CryptoLaws) (payload : Bytes) (useCompression : Bool) :
    (∃ compressed, compressPayload payload useCompression = (compressed, 1) ∧
        WireCrypto.decompress compressed = some payload) ∨
      compressPayload payload useCompression = (payload, 0) := by
  unfold compressPayload
  split
  · split
    next compressed hcompressed =>
      split
      · exact .inl ⟨compressed, rfl, hlaws.decompress payload compressed hcompressed⟩
      · exact .inr rfl
    next => exact .inr rfl
  · exact .inr rfl

/-- The node without what is not sent, under the names of an author and a sender. -/
def unpacked (wire : WireNode) (node : MerkleNode) (senderPk : PhysicalDevicePk)
    (authorPk : LogicalIdentityPk) (sequenceNumber : BitVec 64) : MerkleNode where
  parents := wire.parents
  authorPk := authorPk
  senderPk := senderPk
  sequenceNumber := sequenceNumber
  topologicalRank := wire.topologicalRank
  networkTimestamp := node.networkTimestamp
  content := node.content
  metadata := node.metadata
  authentication := wire.authentication
  powNonce := 0

omit [WireCrypto] in
theorem drop_payloadOf (node : MerkleNode) :
    (payloadOf node).drop 8 = writeContent node.content ++ node.metadata := by
  rw [payloadOf, List.append_assoc, List.drop_left' (length_toBe 8 _)]

omit [WireCrypto] in
theorem readPayload_payloadOf (hfits : FitsNode node) (senderPk : PhysicalDevicePk)
    (authorPk : LogicalIdentityPk) (sequenceNumber : BitVec 64) :
    readPayload wire senderPk authorPk sequenceNumber (payloadOf node) =
      .ok (unpacked wire node senderPk authorPk sequenceNumber) := by
  have hlength : (toBe 8 (ofSigned 8 node.networkTimestamp)).length = 8 := length_toBe 8 _
  have htake : (payloadOf node).take 8 = toBe 8 (ofSigned 8 node.networkTimestamp) := by
    rw [payloadOf, List.append_assoc, List.take_left' hlength]
  have hlong : ¬ (payloadOf node).length < 8 := by
    rw [payloadOf, List.length_append, List.length_append, hlength]
    omega
  have hstamp : toSigned 8 (fromBe (toBe 8 (ofSigned 8 node.networkTimestamp))) =
      node.networkTimestamp := by
    obtain ⟨hlow, hhigh⟩ := hfits.networkTimestamp
    rw [fromBe_toBe 8 (ofSigned_lt 8 _)]
    exact toSigned_ofSigned (by norm_num; omega) (by norm_num; omega)
  have hcontent : content.read (writeContent node.content ++ node.metadata) =
      some (node.content, node.metadata) := content.read_write _ _ hfits.content
  rw [readPayload, if_neg hlong, drop_payloadOf, hcontent, htake, hstamp]
  rfl

/-- Decoding undoes padding and compression. -/
theorem decodePayload_compressPayload (hlaws : CryptoLaws)
    (hflag : Fs.isCompressed wire =
      decide ((compressPayload (payloadOf node) useCompression).2 = 1))
    (senderPk : PhysicalDevicePk) (authorPk : LogicalIdentityPk) (sequenceNumber : BitVec 64) :
    decodePayload wire senderPk authorPk sequenceNumber
        (applyPadding (compressPayload (payloadOf node) useCompression).1) =
      readPayload wire senderPk authorPk sequenceNumber (payloadOf node) := by
  have hdecompressed : decompressPayload wire
      (compressPayload (payloadOf node) useCompression).1 = .ok (payloadOf node) := by
    rw [decompressPayload, hflag]
    rcases compressPayload_cases hlaws (payloadOf node) useCompression with
      ⟨compressed, heq, hdecompress⟩ | heq
    · rw [heq, decide_eq_true rfl, if_pos rfl, hdecompress]
    · rw [heq]
      rfl
  rw [decodePayload, removePadding_applyPadding]
  simp only [hdecompressed]
  rfl

/-! ## Keys and nonces -/

omit [WireCrypto] in
theorem length_toBytes (key : Bytes32) : (Bytes32.toBytes key).length = 32 := length_toBe 32 _

omit [WireCrypto] in
theorem ofBytes_toBytes (key : Bytes32) : Bytes32.ofBytes (Bytes32.toBytes key) = key := by
  rw [Bytes32.ofBytes, Bytes32.toBytes, fromBe_toBe 32 key.isLt, BitVec.ofNat_toNat]
  exact BitVec.setWidth_eq key

omit [WireCrypto] in
theorem ofNat_fromBe_toBe (seq : BitVec 64) : BitVec.ofNat 64 (fromBe (toBe 8 seq.toNat)) = seq := by
  rw [fromBe_toBe 8 seq.isLt, BitVec.ofNat_toNat]
  exact BitVec.setWidth_eq seq

omit [WireCrypto] in
theorem length_nonceBytes (nonce : Bytes32) : (nonceBytes nonce).length = 12 := by
  rw [nonceBytes, List.length_take, length_toBytes]
  rfl

theorem length_encryptRoutingAead (hlaws : CryptoLaws) (kHeader : HeaderKey) (nonce : Bytes)
    (seq : BitVec 64) (aad : Bytes32) :
    (encryptRoutingAead kHeader nonce seq aad).length = 24 := by
  rw [encryptRoutingAead, List.length_append, hlaws.ciphertext, hlaws.tag, length_toBe]

/-- The sequence number is decrypted under the key that encrypted it. -/
theorem decryptRoutingAead_encrypt (hlaws : CryptoLaws) (kHeader : HeaderKey) (nonce : Bytes)
    (seq : BitVec 64) (aad : Bytes32) :
    decryptRoutingAead kHeader nonce (encryptRoutingAead kHeader nonce seq aad) aad = some seq := by
  have hlength : (WireCrypto.encryptDetached kHeader nonce (Bytes32.toBytes aad)
      (toBe 8 seq.toNat)).1.length = 8 := by
    rw [hlaws.ciphertext, length_toBe]
  rw [decryptRoutingAead, length_encryptRoutingAead hlaws]
  simp only [encryptRoutingAead, List.take_left' hlength, List.drop_left' hlength,
    hlaws.decryptDetached]
  simp [ofNat_fromBe_toBe]

/-! ## Wire nodes -/

/-- What a wire node has of the node that was packed. -/
theorem unpacked_packWire (keys : PackKeys) (senderPk : PhysicalDevicePk)
    (authorPk : LogicalIdentityPk) :
    unpacked (packWire node keys useCompression) node senderPk authorPk node.sequenceNumber =
      { node with senderPk := senderPk, authorPk := authorPk, powNonce := 0 } := by
  cases keys <;> rfl

theorem isCompressed_packWire (hlaws : CryptoLaws) (keys : PackKeys) :
    Fs.isCompressed (packWire node keys useCompression) =
      decide ((compressPayload (payloadOf node) useCompression).2 = 1) := by
  obtain ⟨flags, hflags⟩ : ∃ flags,
      flags = (compressPayload (payloadOf node) useCompression).2 := ⟨_, rfl⟩
  have hcases : flags = 1 ∨ flags = 0 := by
    rw [hflags]
    rcases compressPayload_cases hlaws (payloadOf node) useCompression with ⟨_, heq, -⟩ | heq
    · exact .inl (by rw [heq])
    · exact .inr (by rw [heq])
  have hpacked : (packWire node keys useCompression).flags = flags ∨
      (packWire node keys useCompression).flags = flags ||| 2 := by
    rw [hflags]
    cases keys with
    | content keys => exact .inr rfl
    | exception => exact .inl rfl
  rw [Fs.isCompressed, ← hflags]
  rcases hpacked with hpacked | hpacked
  · rw [hpacked]
    rcases hcases with rfl | rfl
    · decide
    · decide
  · rw [hpacked]
    rcases hcases with rfl | rfl
    · decide
    · decide

theorem tryDecryptRouting_packWire (hlaws : CryptoLaws) (keys : PackContentKeys) :
    tryDecryptRouting (packWire node (.content keys) useCompression) keys.kHeader =
      some node.sequenceNumber := by
  have hnonce := length_nonceBytes keys.routingNonce
  have hlength : (packWire node (.content keys) useCompression).encryptedRouting.length = 36 := by
    simp only [packWire, List.length_append, hnonce, length_encryptRoutingAead hlaws]
  rw [tryDecryptRouting, hlength]
  simp only [packWire, List.take_left' hnonce, List.drop_left' hnonce,
    decryptRoutingAead_encrypt hlaws]
  rfl

/-- What is left to do with the payload of a content node. -/
theorem unpackWireContent_packWire (hlaws : CryptoLaws) (keys : PackContentKeys)
    (senderPk : PhysicalDevicePk) (authorPk : LogicalIdentityPk) :
    unpackWireContent (packWire node (.content keys) useCompression) senderPk authorPk
        node.sequenceNumber keys.kMsg =
      readPayload (packWire node (.content keys) useCompression) senderPk authorPk
        node.sequenceNumber (payloadOf node) := by
  have hnonce := length_nonceBytes keys.payloadNonce
  obtain ⟨wire, hwire⟩ : ∃ wire, wire = packWire node (.content keys) useCompression := ⟨_, rfl⟩
  have hpayload : wire.payloadData = nonceBytes keys.payloadNonce ++
      WireCrypto.applyKeystream keys.kMsg (nonceBytes keys.payloadNonce)
        (applyPadding (compressPayload (payloadOf node) useCompression).1) := by
    rw [hwire]
    rfl
  have hflag : Fs.isCompressed wire =
      decide ((compressPayload (payloadOf node) useCompression).2 = 1) :=
    hwire ▸ isCompressed_packWire hlaws _
  have hlong : ¬ wire.payloadData.length < 12 := by
    rw [hpayload, List.length_append, hnonce]
    omega
  rw [← hwire, unpackWireContent, if_neg hlong, hpayload, List.take_left' hnonce,
    List.drop_left' hnonce, hlaws.applyKeystream]
  exact decodePayload_compressPayload hlaws hflag senderPk authorPk _

theorem unpackWireException_packWire (hlaws : CryptoLaws) :
    unpackWireException (packWire node .exception useCompression) =
      readPayload (packWire node .exception useCompression) node.senderPk
        node.senderPk.toLogical node.sequenceNumber (payloadOf node) := by
  have hsender := length_toBytes node.senderPk.bytes
  obtain ⟨wire, hwire⟩ : ∃ wire, wire = packWire node .exception useCompression := ⟨_, rfl⟩
  have hrouting : wire.encryptedRouting =
      Bytes32.toBytes node.senderPk.bytes ++ toBe 8 node.sequenceNumber.toNat := by
    rw [hwire]
    rfl
  have hpayload : wire.payloadData =
      applyPadding (compressPayload (payloadOf node) useCompression).1 := by
    rw [hwire]
    rfl
  have hflag : Fs.isCompressed wire =
      decide ((compressPayload (payloadOf node) useCompression).2 = 1) :=
    hwire ▸ isCompressed_packWire hlaws _
  have hlong : ¬ wire.encryptedRouting.length < 40 := by
    rw [hrouting, List.length_append, hsender, length_toBe]
    omega
  have hseq : (toBe 8 node.sequenceNumber.toNat).take 8 = toBe 8 node.sequenceNumber.toNat :=
    List.take_of_length_le (Nat.le_of_eq (length_toBe 8 _))
  rw [← hwire, unpackWireException, if_neg hlong, hrouting, List.take_left' hsender,
    List.drop_left' hsender, hseq, ofBytes_toBytes, ofNat_fromBe_toBe, hpayload]
  exact decodePayload_compressPayload hlaws hflag node.senderPk node.senderPk.toLogical _

end Payload

/-- Unpacking gives back the node but for the nonce of the proof of work, and for the author of
an exception node, which becomes the sender. The hash is the same unless the author was another
than the sender. -/
theorem unpack_packWire [WireCrypto] (hlaws : CryptoLaws) (node : MerkleNode)
    (hfits : FitsNode node) (useCompression : Bool) :
    (∀ keys : PackContentKeys,
      tryDecryptRouting (packWire node (.content keys) useCompression) keys.kHeader =
          some node.sequenceNumber ∧
        unpackWireContent (packWire node (.content keys) useCompression) node.senderPk
            node.authorPk node.sequenceNumber keys.kMsg = .ok { node with powNonce := 0 }) ∧
      unpackWireException (packWire node .exception useCompression) =
        .ok { node with authorPk := node.senderPk.toLogical, powNonce := 0 } ∧
      hashNode { node with powNonce := 0 } = hashNode node ∧
      (node.authorPk = node.senderPk.toLogical →
        hashNode { node with authorPk := node.senderPk.toLogical, powNonce := 0 } =
          hashNode node) := by
  refine ⟨fun keys => ⟨tryDecryptRouting_packWire hlaws keys, ?_⟩, ?_, rfl, fun hauthor => ?_⟩
  · rw [unpackWireContent_packWire hlaws, readPayload_payloadOf hfits, unpacked_packWire]
  · rw [unpackWireException_packWire hlaws, readPayload_payloadOf hfits, unpacked_packWire]
  · rw [← hauthor]
    rfl

namespace Reference

/-! ## A cipher on bytes -/

/-- Every byte is masked; short data does not get shorter by compression. -/
instance referenceCrypto : WireCrypto where
  blake3 data := BitVec.ofNat 256 (Core.Reference.digest (data.map UInt8.toNat))
  compress data := some (0x28 :: data)
  decompress
    | _ :: data => some data
    | [] => none
  applyKeystream _ _ data := data.map fun byte => byte ^^^ 0x5a
  encryptDetached _ _ _ data := (data.map fun byte => byte ^^^ 0x5a, List.replicate 16 0)
  decryptDetached _ _ _ data _ := some (data.map fun byte => byte ^^^ 0x5a)
  deriveHint key := key.bytes

theorem map_xor_twice (data : Bytes) : (data.map (· ^^^ 0x5a)).map (· ^^^ 0x5a) = data := by
  have htwice : ∀ byte : UInt8, byte ^^^ 0x5a ^^^ 0x5a = byte := fun byte => by
    rw [UInt8.xor_assoc, UInt8.xor_self, UInt8.xor_zero]
  simp only [List.map_map, Function.comp_def, htwice, List.map_id']

theorem cryptoLaws : CryptoLaws where
  decompress data compressed hcompressed := by
    cases hcompressed
    rfl
  applyKeystream _ _ data := map_xor_twice data
  decryptDetached key nonce aad data := by
    rw [WireCrypto.decryptDetached, WireCrypto.encryptDetached]
    exact congrArg some (map_xor_twice data)
  ciphertext key nonce aad data := List.length_map _
  tag key nonce aad data := List.length_replicate

def signed (content : Content) : MerkleNode where
  parents := [⟨3⟩]
  authorPk := ⟨7⟩
  senderPk := ⟨7⟩
  sequenceNumber := 5
  topologicalRank := 1
  networkTimestamp := -1
  content := content
  metadata := [1, 0]
  authentication := .signature ⟨0⟩
  powNonce := 0

theorem fits_text : FitsNode (signed (.text "héllo")) where
  networkTimestamp := by decide
  content := by
    show (utf8 "héllo").length < 2 ^ 32
    decide

theorem unpack_packWire_text :
    (∀ keys : PackContentKeys,
      tryDecryptRouting (packWire (signed (.text "héllo")) (.content keys) true) keys.kHeader =
          some 5 ∧
        unpackWireContent (packWire (signed (.text "héllo")) (.content keys) true) ⟨7⟩ ⟨7⟩ 5
            keys.kMsg = .ok { signed (.text "héllo") with powNonce := 0 }) ∧
      unpackWireException (packWire (signed (.text "héllo")) .exception true) =
        .ok { signed (.text "héllo") with authorPk := ⟨7⟩, powNonce := 0 } ∧
      hashNode { signed (.text "héllo") with powNonce := 0 } = hashNode (signed (.text "héllo")) ∧
      ((⟨7⟩ : LogicalIdentityPk) = ⟨7⟩ →
        hashNode { signed (.text "héllo") with authorPk := ⟨7⟩, powNonce := 0 } =
          hashNode (signed (.text "héllo"))) :=
  unpack_packWire cryptoLaws (signed (.text "héllo")) fits_text true

/-- A node with a nonce of its own. -/
def mined : MerkleNode := { signed (.text "héllo") with powNonce := 1 }

/-- A control action that a device signs for its owner. -/
def delegated : MerkleNode := { signed (.control (.setTitle "a")) with authorPk := ⟨8⟩ }

/-- A content whose data does not fit its length. -/
def huge : MerkleNode := signed (.custom 0 (List.replicate (2 ^ 32) 0))

theorem readBin_writeBin_wraps {data : Bytes} (hlen : data.length = 2 ^ 32) (rest : Bytes) :
    readBin (writeBin data ++ rest) = some ([], data ++ rest) := by
  have hread := readBin_writeBin_append [] (data ++ rest) (by norm_num)
  have hwrite : writeBin data = writeBin [] ++ data := by
    rw [writeBin, hlen]
    rfl
  rw [hwrite, List.append_assoc]
  exact hread

theorem readContent_wraps {data : Bytes} (hlen : data.length = 2 ^ 32) (rest : Bytes) :
    content.read (writeContent (.custom 0 data) ++ rest) =
      some (.custom 0 [], data ++ rest) := by
  have hbin := readBin_writeBin_wraps hlen rest
  have hfields : customFields.read (customFields.write (0, data) ++ rest) =
      some ((0, []), data ++ rest) := by
    have htag := Codec.u32.read_write 0 (writeBin data ++ rest) (by decide : (0 : Nat) < 2 ^ 32)
    have hlen := readArrayLen_writeArrayLen (Codec.u32.write 0 ++ (writeBin data ++ rest))
      (by norm_num : 2 < 2 ^ 32)
    simp only [customFields, Codec.struct, Codec.pair, Codec.bin, List.append_assoc, hlen]
    simp [htag, hbin, skipValues_zero]
  show readEnum contentArms _ = _
  rw [writeContent, readEnum_writeVariant _ (by norm_num), contentArms, readVariant,
    if_neg (by decide), hfields]
  rfl

/-- What packing loses: the nonce of a node, the author of an exception node and with it the
hash, a content that is called unknown under a known tag, and data of `2 ^ 32` bytes. -/
theorem packing_loses :
    (∀ keys : PackContentKeys,
      unpackWireContent (packWire mined (.content keys) true) mined.senderPk mined.authorPk
        mined.sequenceNumber keys.kMsg ≠ .ok mined) ∧
      (∃ node, unpackWireException (packWire delegated .exception true) = .ok node ∧
        hashNode node ≠ hashNode delegated) ∧
      unpackWireException (packWire (signed (.unknown 5 [])) .exception true) =
        .error .content ∧
      ∀ node, unpackWireException (packWire huge .exception true) = .ok node →
        node.content ≠ huge.content := by
  refine ⟨fun keys heq => ?_, ?_, ?_, fun node hunpacked heq => ?_⟩
  · have hfits : FitsNode mined := ⟨fits_text.networkTimestamp, fits_text.content⟩
    rw [unpackWireContent_packWire cryptoLaws, readPayload_payloadOf hfits,
      unpacked_packWire] at heq
    exact absurd (congrArg MerkleNode.powNonce (Except.ok.inj heq)) (by decide)
  · have hfits : FitsNode delegated := ⟨by decide, by
      show (utf8 "a").length < 2 ^ 32
      decide⟩
    refine ⟨{ delegated with authorPk := ⟨7⟩ }, ?_, by decide +kernel⟩
    rw [unpackWireException_packWire cryptoLaws, readPayload_payloadOf hfits, unpacked_packWire]
    rfl
  · rw [unpackWireException_packWire cryptoLaws]
    rfl
  · rw [unpackWireException_packWire cryptoLaws, readPayload] at hunpacked
    have hread : content.read (writeContent huge.content ++ huge.metadata) =
        some (.custom 0 [], List.replicate (2 ^ 32) 0 ++ huge.metadata) :=
      readContent_wraps List.length_replicate _
    rw [drop_payloadOf, hread] at hunpacked
    split at hunpacked
    · cases hunpacked
    · have hcontent : node.content = .custom 0 [] := by rw [← Except.ok.inj hunpacked]
      have hdata : ([] : Bytes) = List.replicate (2 ^ 32) 0 :=
        (Content.custom.inj (hcontent.symm.trans heq)).2
      exact absurd (congrArg List.length hdata) (by rw [List.length_replicate]; decide)

end Reference

end MerkleTox.Wire
