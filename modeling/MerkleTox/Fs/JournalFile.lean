import MerkleTox.Fs.Segments

/-! # The file of the journal

A journal is a header of sixteen bytes, then records: the length of the payload, its
hash, the type and the payload. A footer may follow. Reading walks the records from the
header on and cuts the file where one is torn.
-/

namespace MerkleTox.Fs

open Library Proto MerkleTox.Core

namespace JournalFile

/-- `JournalRecordType`. -/
inductive RecordType
  | node
  | vouch
  | blacklist
  | promotion
  | ratchetAdvance
  deriving DecidableEq, Repr

def RecordType.toByte : RecordType → UInt8
  | node => 0x01
  | vouch => 0x02
  | blacklist => 0x03
  | promotion => 0x04
  | ratchetAdvance => 0x05

/-- `JournalRecordType::try_from`. -/
def RecordType.tryFrom (value : UInt8) : Option RecordType :=
  if value = 0x01 then some node
  else if value = 0x02 then some vouch
  else if value = 0x03 then some blacklist
  else if value = 0x04 then some promotion
  else if value = 0x05 then some ratchetAdvance
  else none

/-- `JournalRecord`. -/
structure Record where
  hash : NodeHash
  recordType : RecordType
  payload : Bytes
  offset : Nat
  deriving DecidableEq, Repr

def journalFooterMagic : Nat := 0x454E4421

/-- The file of a journal and what the handle knows about it. -/
structure Journal where
  contents : Bytes
  generationId : Nat
  hasFooter : Bool
  deriving DecidableEq

def hashBytes (hash : NodeHash) : Bytes := toBe 32 hash.bytes.toNat

/-- The fields of a record without its place. -/
abbrev Fields := NodeHash × RecordType × Bytes

def readFields : Reader Fields := fun input => do
  let (length, input) ← readLe 4 input
  let (nodeHash, input) ← readExact 32 input
  let (recordType, input) ← readByte input
  let recordType ← RecordType.tryFrom recordType
  let (payload, input) ← readExact length input
  some ((⟨BitVec.ofNat 256 (fromBe nodeHash)⟩, recordType, payload), input)

def writeFields : Fields → Bytes
  | (nodeHash, recordType, payload) =>
      toLe 4 payload.length ++ hashBytes nodeHash ++ [recordType.toByte] ++ payload

/-- `set_len`: cut the file, or let it grow with zeros. -/
def setLen (contents : Bytes) (length : Nat) : Bytes :=
  (contents ++ List.replicate (length - contents.length) 0).take length

/-- The bytes of a record are its fields and 37 more. -/
def recordSize (payload : Bytes) : Nat := 4 + 32 + 1 + payload.length

/-! ## Reading fields -/

theorem readExact_append_right {n : Nat} {input data rest : Bytes}
    (hread : readExact n input = some (data, rest)) (more : Bytes) :
    readExact n (input ++ more) = some (data, rest ++ more) := by
  rw [readExact] at hread ⊢
  split at hread
  next hle =>
    obtain ⟨rfl, rfl⟩ := Prod.mk.inj (Option.some.inj hread)
    rw [List.length_append, if_pos (by omega), List.take_append_of_le_length hle,
      List.drop_append_of_le_length hle]
  next => cases hread

/-- Reading fields does not look beyond them. -/
theorem readFields_append_right {input rest : Bytes} {fields : Fields}
    (hread : readFields input = some (fields, rest)) (more : Bytes) :
    readFields (input ++ more) = some (fields, rest ++ more) := by
  simp only [readFields, readLe, Option.bind_eq_bind, Option.bind_eq_some_iff,
    Option.map_eq_some_iff] at hread
  obtain ⟨⟨length, afterLength⟩, ⟨⟨lengthBytes, _⟩, hlength, heq⟩, ⟨nodeHash, afterHash⟩, hhash,
    ⟨byte, afterType⟩, hbyte, recordType, htype, ⟨payload, afterPayload⟩, hpayload, hfields⟩ :=
      hread
  obtain ⟨rfl, rfl⟩ := Prod.mk.inj heq
  obtain ⟨rfl, rfl⟩ := Prod.mk.inj (Option.some.inj hfields)
  have hbyte' : readByte (afterHash ++ more) = some (byte, afterType ++ more) := by
    cases afterHash with
    | nil => cases hbyte
    | cons first rest =>
        obtain ⟨rfl, rfl⟩ := Prod.mk.inj (Option.some.inj hbyte)
        rfl
  simp [readFields, readLe, readExact_append_right hlength, readExact_append_right hhash, hbyte',
    htype, readExact_append_right hpayload]

theorem tryFrom_toByte (recordType : RecordType) :
    RecordType.tryFrom recordType.toByte = some recordType := by
  cases recordType <;> rfl

theorem fromBe_toBe_mod (width n : Nat) : fromBe (toBe width n) = n % 256 ^ width := by
  induction width generalizing n with
  | zero => simp [toBe, fromBe, Nat.mod_one]
  | succ width ih =>
      have hbyte : (UInt8.ofNat (n % 256)).toNat = n % 256 := by simp
      rw [toBe, fromBe_append, ih, hbyte, pow_succ', Nat.mod_mul, Nat.add_comm, Nat.mul_comm]

theorem hashBytes_injective (nodeHash : NodeHash) :
    (⟨BitVec.ofNat 256 (fromBe (hashBytes nodeHash))⟩ : NodeHash) = nodeHash := by
  have hlt : nodeHash.bytes.toNat < 256 ^ 32 := nodeHash.bytes.isLt
  rw [hashBytes, fromBe_toBe 32 hlt, BitVec.ofNat_toNat, BitVec.setWidth_eq]

/-- A payload reads back up to the length that its four bytes hold. -/
theorem readFields_writeFields_append (nodeHash : NodeHash) (recordType : RecordType)
    (payload rest : Bytes) :
    readFields (writeFields (nodeHash, recordType, payload) ++ rest) =
      some ((nodeHash, recordType, payload.take (payload.length % 2 ^ 32)),
        payload.drop (payload.length % 2 ^ 32) ++ rest) := by
  have hlength : ∀ more, readLe 4 (toLe 4 payload.length ++ more) =
      some (payload.length % 2 ^ 32, more) := by
    intro more
    have hread := readExact_append (toLe 4 payload.length) more
    rw [length_toLe] at hread
    have hvalue : fromLe (toLe 4 payload.length) = payload.length % 2 ^ 32 := by
      rw [fromLe, toLe, List.reverse_reverse, fromBe_toBe_mod]
      rfl
    simp only [readLe, hread, Option.map_some, hvalue]
  have hhash : ∀ more, readExact 32 (hashBytes nodeHash ++ more) =
      some (hashBytes nodeHash, more) := by
    intro more
    have hread := readExact_append (hashBytes nodeHash) more
    rwa [hashBytes, length_toBe] at hread
  have hle : payload.length % 2 ^ 32 ≤ payload.length := Nat.mod_le _ _
  have hpayload : readExact (payload.length % 2 ^ 32) (payload ++ rest) =
      some (payload.take (payload.length % 2 ^ 32),
        payload.drop (payload.length % 2 ^ 32) ++ rest) := by
    rw [readExact, List.length_append, if_pos (by omega), List.take_append_of_le_length hle,
      List.drop_append_of_le_length hle]
  simp only [writeFields, List.append_assoc, readFields, Option.bind_eq_bind, hlength,
    Option.bind_some, hhash, List.cons_append, List.nil_append, readByte, tryFrom_toByte,
    hpayload, hashBytes_injective]

theorem length_writeFields (nodeHash : NodeHash) (recordType : RecordType) (payload : Bytes) :
    (writeFields (nodeHash, recordType, payload)).length = recordSize payload := by
  simp [writeFields, hashBytes, recordSize]
  omega

/-! ## The journal -/

variable [WireFormat]

/-- The records from an offset on, and where to cut the file. A file that ends within the
length of a record is not cut. -/
def walk : Nat → Nat → Bytes → List Record × Option Nat
  | 0, _, _ => ([], none)
  | fuel + 1, offset, input =>
      if (readLe 4 input).isNone then ([], none)
      else
        match readFields input with
        | none => ([], some offset)
        | some ((nodeHash, recordType, payload), rest) =>
            if WireFormat.blake3 payload ≠ nodeHash then ([], some offset)
            else
              let (records, cut) := walk fuel (offset + recordSize payload) rest
              (⟨nodeHash, recordType, payload, offset⟩ :: records, cut)

namespace Journal

/-- A file that is too short for a header starts anew, at the given time. -/
def «open» (contents : Bytes) (now : Nat) : Journal :=
  if contents.length < 16 then
    ⟨toLe 8 now ++ List.replicate 8 0, now % 2 ^ 64, false⟩
  else
    { contents
      generationId := fromLe (contents.take 8)
      hasFooter := 16 + 4 + 4 + 32 < contents.length &&
        fromLe ((contents.drop (contents.length - 40)).take 4) = journalFooterMagic }

def readAll (journal : Journal) : List Record × Journal :=
  let (records, cut) := walk journal.contents.length 16 (journal.contents.drop 16)
  (records, { journal with contents := cut.elim journal.contents (setLen journal.contents) })

/-- The file without what follows its records. -/
def dropFooter (journal : Journal) : Journal :=
  if journal.hasFooter then
    let (records, journal) := journal.readAll
    let endOffset :=
      match records.getLast? with
      | some last => last.offset + 4 + 32 + 1 + last.payload.length
      | none => 16
    { journal with contents := setLen journal.contents endOffset, hasFooter := false }
  else journal

def append (journal : Journal) (recordType : RecordType) (payload : Bytes) :
    (NodeHash × Nat) × Journal :=
  let journal := journal.dropFooter
  let nodeHash := WireFormat.blake3 payload
  ((nodeHash, journal.contents.length),
    { journal with
      contents := journal.contents ++ writeFields (nodeHash, recordType, payload) })

/-- The bytes of a footer for the records. -/
def footerOf (records : List Record) : Bytes :=
  let checksum := WireFormat.blake3 (records.flatMap fun record =>
    writeFields (record.hash, record.recordType, record.payload))
  toLe 4 journalFooterMagic ++ toLe 4 records.length ++ hashBytes checksum

def writeFooter (journal : Journal) : Journal :=
  let (records, journal) := journal.readAll
  { journal with contents := journal.contents ++ footerOf records, hasFooter := true }

omit [WireFormat] in
/-- The hash is not checked. -/
def readRecordAt (journal : Journal) (offset : Nat) : Option Record :=
  (readFields (journal.contents.drop offset)).map fun ((nodeHash, recordType, payload), _) =>
    ⟨nodeHash, recordType, payload, offset⟩

end Journal

end JournalFile

end MerkleTox.Fs
