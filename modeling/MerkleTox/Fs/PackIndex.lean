import MerkleTox.Fs.Conversation
import MerkleTox.Fs.JournalFile
import MerkleTox.Library.BitArray
import MerkleTox.Library.Overflow
import MerkleTox.Library.SortedSearch
import MerkleTox.Proto.Codec

/-! # The index of a pack

The records of a pack are sorted by their hashes. Before they are searched, a Bloom filter rules
out most hashes that are absent, and a table of counts narrows the search to the records whose
hashes start with the same bits.
-/

namespace MerkleTox.Fs

open Library Proto MerkleTox.Core

/-- `IndexRecord` with all of its fields, as they are stored. -/
structure StoredRecord where
  hash : NodeHash
  offset : UInt64
  rank : UInt64
  payloadLength : UInt32
  nodeType : UInt8
  status : UInt8
  adminDistance : UInt16
  deriving DecidableEq

namespace StoredRecord

/-- `RECORD_SIZE`. -/
def size : Nat := 56

def toBytes (record : StoredRecord) : Bytes :=
  JournalFile.hashBytes record.hash ++ toLe 8 record.offset.toNat ++ toLe 8 record.rank.toNat ++
    toLe 4 record.payloadLength.toNat ++ [record.nodeType] ++ [record.status] ++
      toLe 2 record.adminDistance.toNat

def fromBytes (buf : Bytes) : StoredRecord where
  hash := ⟨BitVec.ofNat 256 (fromBe (buf.take 32))⟩
  offset := .ofNat (fromLe ((buf.drop 32).take 8))
  rank := .ofNat (fromLe ((buf.drop 40).take 8))
  payloadLength := .ofNat (fromLe ((buf.drop 48).take 4))
  nodeType := buf.getD 52 0
  status := buf.getD 53 0
  adminDistance := .ofNat (fromLe ((buf.drop 54).take 2))

/-- Hashes are compared byte by byte, that is as big-endian numbers. -/
def key (record : StoredRecord) : Nat := record.hash.bytes.toNat

end StoredRecord

/-- A record as it is stored, with its data at an offset and of a length. -/
def IndexRecord.stored (place : NodeHash → UInt64 × UInt32) (record : IndexRecord) :
    StoredRecord where
  hash := record.hash
  offset := (place record.hash).1
  rank := .ofNat record.rank
  payloadLength := (place record.hash).2
  nodeType := if record.nodeType = .admin then 1 else 2
  status := if record.verified then 1 else 2
  adminDistance := .ofNat record.adminDistance

structure PackIndex where
  fanoutBits : Nat
  bloomK : Nat
  bloomFilter : Bytes
  fanoutTable : List Nat
  records : List StoredRecord
  deriving DecidableEq

namespace PackIndex

open Checked

def indexMagic : Nat := 0x4D544F58

/-- The leading bits of a hash: whole bytes, then the upper bits of the next one. -/
def getPrefix (hash : NodeHash) (bits : Nat) : Nat :=
  let bytes := JournalFile.hashBytes hash
  let fullBytes := bits / 8
  let leading := (bytes.take fullBytes).foldl
    (fun leading byte => (leading <<< 8) % 2 ^ 32 ||| byte.toNat) 0
  let remainingBits := bits % 8
  if 0 < remainingBits then
    (leading <<< remainingBits) % 2 ^ 32 |||
      (bytes.getD fullBytes 0).toNat >>> (8 - remainingBits)
  else leading

section Bloom

variable (digest : Bytes → Bytes) (bits : Nat)

/-- The bit of the `k`-th hash: the first eight bytes of the digest of the byte `k` and the hash. -/
def bloomIndex (hash : NodeHash) (k : Nat) : Checked Nat :=
  remainder (fromLe ((digest (UInt8.ofNat k :: JournalFile.hashBytes hash)).take 8)) bits

def addToBloom (filter : Bytes) (record : StoredRecord) (bloomK : Nat) : Checked Bytes :=
  (List.range bloomK).foldlM (fun filter k => do
    let idx ← bloomIndex digest bits record.hash k
    update filter (idx / 8) fun byte => byte ||| 1 <<< UInt8.ofNat (idx % 8)) filter

def inBloom (filter : Bytes) (hash : NodeHash) : List Nat → Checked Bool
  | [] => pure true
  | k :: rest => do
      let idx ← bloomIndex digest bits hash k
      let byte ← get filter (idx / 8) 0
      if bitOf byte idx then inBloom filter hash rest else pure false

end Bloom

def countRecord (fanoutBits : Nat) (table : List Nat) (record : StoredRecord) :
    Checked (List Nat) := do
  let entry := getPrefix record.hash fanoutBits
  let count ← get table entry 0
  let count ← unsigned 32 (count + 1)
  update table entry fun _ => count

/-- Each entry becomes the sum of the entries up to it. -/
def prefixSums : Nat → List Nat → Checked (List Nat)
  | _, [] => pure []
  | sum, entry :: table => do
      let sum ← unsigned 32 (sum + entry)
      let table ← prefixSums sum table
      pure (sum :: table)

/-- The sort is not stable; for distinct hashes there is one order. -/
def sortByHash (records : List StoredRecord) : List StoredRecord :=
  records.mergeSort fun first second => decide (first.key ≤ second.key)

/-- Ten bits for each record. -/
def bloomBytes (n : Nat) : Nat := max ((n * 10 + 7) / 8) 64 % 2 ^ 32

def build (digest : Bytes → Bytes) (records : List StoredRecord) (fanoutBits bloomK : Nat) :
    Checked PackIndex := do
  let sorted := sortByHash records
  let bloomM := bloomBytes sorted.length
  let bits ← unsigned 32 (bloomM * 8)
  let bloomFilter ← sorted.foldlM
    (fun filter record => addToBloom digest bits filter record bloomK) (List.replicate bloomM 0)
  let counts ← sorted.foldlM (countRecord fanoutBits) (List.replicate (2 ^ fanoutBits) 0)
  let fanoutTable ← prefixSums 0 counts
  pure ⟨fanoutBits, bloomK, bloomFilter, fanoutTable, sorted⟩

/-- Where the records of an entry start: where those of the entry before end. -/
def rangeStart (table : List Nat) (entry : Nat) : Checked Nat :=
  if entry = 0 then pure 0 else get table (entry - 1) 0

def lookup (digest : Bytes → Bytes) (index : PackIndex) (hash : NodeHash) :
    Checked (Option StoredRecord) := do
  let bits := index.bloomFilter.length * 8 % 2 ^ 32
  if ← inBloom digest bits index.bloomFilter hash (List.range index.bloomK) then
    let entry := getPrefix hash index.fanoutBits
    let low ← rangeStart index.fanoutTable entry
    let high ← get index.fanoutTable entry 0
    let range ← slice index.records low high
    pure ((binarySearch StoredRecord.key hash.bytes.toNat range).bind fun idx => range[idx]?)
  else pure none

/-! ## The file -/

def save (index : PackIndex) : Bytes :=
  let header := Codec.u64.write index.records.length
  toLe 4 indexMagic ++ toLe 4 index.fanoutBits ++ toLe 4 index.bloomK ++
    toLe 4 index.bloomFilter.length ++ index.bloomFilter ++ index.fanoutTable.flatMap (toLe 4) ++
      toLe 4 header.length ++ header ++ index.records.flatMap StoredRecord.toBytes

def readRecord : Reader StoredRecord := fun input =>
  (readExact StoredRecord.size input).map fun (buf, input) => (StoredRecord.fromBytes buf, input)

def load (contents : Bytes) : Option PackIndex := do
  let (magic, input) ← readLe 4 contents
  if magic = indexMagic then
    let (fanoutBits, input) ← readLe 4 input
    let (bloomK, input) ← readLe 4 input
    let (bloomM, input) ← readLe 4 input
    let (bloomFilter, input) ← readExact bloomM input
    let (fanoutTable, input) ← readItems (readLe 4) (2 ^ fanoutBits) input
    let (headerLen, input) ← readLe 4 input
    let (header, input) ← readExact headerLen input
    let (count, _) ← Codec.u64.read header
    let (records, _) ← readItems readRecord count input
    some ⟨fanoutBits, bloomK, bloomFilter, fanoutTable, records⟩
  else none

end PackIndex

/-! ## Reading back -/

namespace StoredRecord

@[simp]
theorem length_toBytes (record : StoredRecord) : record.toBytes.length = size := by
  simp [toBytes, JournalFile.hashBytes, size, length_toBe]

theorem take_drop_field {bytes before field after : Bytes} {start width : Nat}
    (hbytes : bytes = before ++ (field ++ after)) (hstart : before.length = start)
    (hwidth : field.length = width) : (bytes.drop start).take width = field := by
  rw [hbytes, List.drop_left' hstart, List.take_left' hwidth]

theorem getD_field {bytes before after : Bytes} {byte : UInt8} {start : Nat}
    (hbytes : bytes = before ++ (byte :: after)) (hstart : before.length = start) :
    bytes.getD start 0 = byte := by
  rw [hbytes, List.getD_eq_getElem?_getD, List.getElem?_append_right hstart.le, hstart,
    Nat.sub_self]
  rfl

theorem fromBytes_toBytes (record : StoredRecord) : fromBytes record.toBytes = record := by
  obtain ⟨⟨hash⟩, offset, rank, payloadLength, nodeType, status, adminDistance⟩ := record
  have hhash : BitVec.ofNat 256 (fromBe (toBe 32 hash.toNat)) = hash := by
    have hfits : hash.toNat < 256 ^ 32 := hash.isLt
    rw [fromBe_toBe 32 hfits, BitVec.ofNat_toNat, BitVec.setWidth_eq]
  have hoffset : UInt64.ofNat (fromLe (toLe 8 offset.toNat)) = offset := by
    have hfits : offset.toNat < 256 ^ 8 := offset.toNat_lt
    rw [fromLe_toLe 8 hfits, UInt64.ofNat_toNat]
  have hrank : UInt64.ofNat (fromLe (toLe 8 rank.toNat)) = rank := by
    have hfits : rank.toNat < 256 ^ 8 := rank.toNat_lt
    rw [fromLe_toLe 8 hfits, UInt64.ofNat_toNat]
  have hpayload : UInt32.ofNat (fromLe (toLe 4 payloadLength.toNat)) = payloadLength := by
    have hfits : payloadLength.toNat < 256 ^ 4 := payloadLength.toNat_lt
    rw [fromLe_toLe 4 hfits, UInt32.ofNat_toNat]
  have hdistance : UInt16.ofNat (fromLe (toLe 2 adminDistance.toNat)) = adminDistance := by
    have hfits : adminDistance.toNat < 256 ^ 2 := adminDistance.toNat_lt
    rw [fromLe_toLe 2 hfits, UInt16.ofNat_toNat]
  -- the fields one after the other, each with the length of what is before it
  generalize hbytes : toBytes _ = bytes
  simp only [toBytes, JournalFile.hashBytes, List.append_assoc, List.singleton_append] at hbytes
  have h0 := @take_drop_field bytes [] (toBe 32 hash.toNat) _ 0 32
    (by rw [List.nil_append]; exact hbytes.symm) rfl (length_toBe _ _)
  have h1 := @take_drop_field bytes (toBe 32 hash.toNat) (toLe 8 offset.toNat) _ 32 8 hbytes.symm
    (length_toBe _ _) (length_toLe _ _)
  have h2 := @take_drop_field bytes (toBe 32 hash.toNat ++ toLe 8 offset.toNat)
    (toLe 8 rank.toNat) _ 40 8 (by rw [List.append_assoc]; exact hbytes.symm) (by simp) (by simp)
  have h3 := @take_drop_field bytes (toBe 32 hash.toNat ++ toLe 8 offset.toNat ++
    toLe 8 rank.toNat) (toLe 4 payloadLength.toNat) _ 48 4
    (by simp only [List.append_assoc]; exact hbytes.symm) (by simp) (by simp)
  have h4 := @getD_field bytes (toBe 32 hash.toNat ++ toLe 8 offset.toNat ++
    toLe 8 rank.toNat ++ toLe 4 payloadLength.toNat) _ nodeType 52
    (by simp only [List.append_assoc]; exact hbytes.symm) (by simp)
  have h5 := @getD_field bytes (toBe 32 hash.toNat ++ toLe 8 offset.toNat ++
    toLe 8 rank.toNat ++ toLe 4 payloadLength.toNat ++ [nodeType]) _ status 53
    (by simp only [List.append_assoc, List.singleton_append]; exact hbytes.symm) (by simp)
  have h6 := @take_drop_field bytes (toBe 32 hash.toNat ++ toLe 8 offset.toNat ++
    toLe 8 rank.toNat ++ toLe 4 payloadLength.toNat ++ [nodeType] ++ [status])
    (toLe 2 adminDistance.toNat) [] 54 2
    (by simp only [List.append_assoc, List.singleton_append, List.append_nil]; exact hbytes.symm)
    (by simp) (by simp)
  rw [List.drop_zero] at h0
  rw [fromBytes, h0, h1, h2, h3, h4, h5, h6, hhash, hoffset, hrank, hpayload, hdistance]

end StoredRecord

namespace PackIndex

/-- The numbers of the index are `u32`, and the table has an entry for each prefix. -/
structure Fits (index : PackIndex) : Prop where
  fanoutBits : index.fanoutBits < 2 ^ 32
  bloomK : index.bloomK < 2 ^ 32
  bloomFilter : index.bloomFilter.length < 2 ^ 32
  tableLength : index.fanoutTable.length = 2 ^ index.fanoutBits
  table : ∀ entry ∈ index.fanoutTable, entry < 2 ^ 32
  records : index.records.length < 2 ^ 64

theorem length_writeUint_le (value : Nat) : (writeUint value).length ≤ 9 := by
  unfold writeUint
  repeat' split
  all_goals simp

theorem readRecord_append (record : StoredRecord) (rest : Bytes) :
    readRecord (record.toBytes ++ rest) = some (record, rest) := by
  have hread := readExact_append record.toBytes rest
  rw [StoredRecord.length_toBytes] at hread
  rw [readRecord, hread, Option.map_some]
  exact congrArg (fun record => some (record, rest)) (StoredRecord.fromBytes_toBytes record)

/-- An index is loaded as it was saved. -/
theorem load_save {index : PackIndex} (h : index.Fits) : load index.save = some index := by
  obtain ⟨fanoutBits, bloomK, filter, table, records⟩ := index
  obtain ⟨hfanoutBits, hbloomK, hfilter, htableLength, htable, hrecords⟩ := h
  dsimp only at hfanoutBits hbloomK hfilter htableLength htable hrecords
  have htableRead : ∀ rest, readItems (readLe 4) (2 ^ fanoutBits) (table.flatMap (toLe 4) ++ rest) =
      some (table, rest) := fun rest => by
    rw [← htableLength]
    exact readItems_flatMap (fun entry hmem rest => readLe_toLe_append 4 (htable entry hmem) rest)
      rest
  have hrecordsRead := @readItems_flatMap _ readRecord StoredRecord.toBytes records
    (fun record _ rest => readRecord_append record rest) []
  have hheader := Codec.u64.read_write records.length [] hrecords
  have hheaderLength : (Codec.u64.write records.length).length < 256 ^ 4 :=
    (length_writeUint_le _).trans_lt (by decide)
  rw [List.append_nil] at hrecordsRead hheader
  unfold load save
  simp only [List.append_assoc]
  rw [readLe_toLe_append 4 (by decide)]
  simp only [Option.bind_eq_bind, Option.bind_some, if_true, readLe_toLe_append 4 hfanoutBits,
    readLe_toLe_append 4 hbloomK, readLe_toLe_append 4 hfilter, readExact_append, htableRead,
    readLe_toLe_append 4 hheaderLength, hheader, hrecordsRead]

/-! ## The leading bits of a hash -/

variable {width bits : Nat}

theorem getElem?_toBe {i : Nat} (n : Nat) (hi : i < width) :
    (toBe width n)[i]? = some (UInt8.ofNat (n / 256 ^ (width - 1 - i) % 256)) := by
  induction width generalizing n with
  | zero => exact absurd hi (Nat.not_lt_zero i)
  | succ width ih =>
      rw [toBe]
      by_cases hlast : i = width
      · subst hlast
        rw [List.getElem?_append_right (by rw [length_toBe]), length_toBe, Nat.sub_self]
        simp
      · rw [List.getElem?_append_left (by rw [length_toBe]; omega), ih (n / 256) (by omega),
          Nat.div_div_eq_div_mul, ← Nat.pow_succ']
        have hexponent : (width - 1 - i).succ = width + 1 - 1 - i := by omega
        rw [hexponent]

/-- The first bytes of a number are its quotient. -/
theorem foldl_take_toBe {count n : Nat} (hn : n < 256 ^ width) (hcount : count ≤ 4)
    (hwidth : count ≤ width) :
    ((toBe width n).take count).foldl
        (fun leading byte => (leading <<< 8) % 2 ^ 32 ||| byte.toNat) 0 =
      n / 256 ^ (width - count) := by
  induction count with
  | zero => rw [List.take_zero, List.foldl_nil, Nat.sub_zero, Nat.div_eq_of_lt hn]
  | succ count ih =>
      have hbyte := @getElem?_toBe width count n (by omega)
      rw [List.take_add_one, hbyte, List.foldl_append, ih (by omega) (by omega)]
      have hexponent : width - count = (width - (count + 1)) + 1 := by omega
      have hlast : width - 1 - count = width - (count + 1) := by omega
      have hquotient : n / 256 ^ (width - count) = n / 256 ^ (width - (count + 1)) / 256 := by
        rw [hexponent, Nat.pow_succ, Nat.div_div_eq_div_mul]
      rw [hquotient, hlast]
      generalize hrest : n / 256 ^ (width - (count + 1)) = rest
      have hrestLt : rest < 256 ^ (count + 1) := by
        rw [← hrest, Nat.div_lt_iff_lt_mul (Nat.pow_pos (by decide)), ← Nat.pow_add]
        have hsum : count + 1 + (width - (count + 1)) = width := by omega
        rwa [hsum]
      have hbound : rest / 256 * 2 ^ 8 < 2 ^ 32 := by
        have hle : 256 ^ (count + 1) ≤ 256 ^ 4 := Nat.pow_le_pow_right (by decide) hcount
        omega
      have hbyteLt : rest % 256 < 2 ^ 8 := Nat.mod_lt rest (by decide)
      have hbyteNat : (UInt8.ofNat (rest % 256)).toNat = rest % 256 := by simp
      simp only [Option.toList_some, List.foldl_cons, List.foldl_nil, hbyteNat, Nat.shiftLeft_eq,
        Nat.mod_eq_of_lt hbound]
      have hor := Nat.shiftLeft_add_eq_or_of_lt hbyteLt (rest / 256)
      rw [Nat.shiftLeft_eq] at hor
      omega

/-- Some bits of a byte behind the bytes before it. -/
theorem shiftIn_eq {rest remaining : Nat} (hrest : rest < 2 ^ 32) (hremaining : remaining < 8) :
    ((rest / 256) <<< remaining % 2 ^ 32 ||| (rest % 256) >>> (8 - remaining)) =
      rest / 2 ^ (8 - remaining) := by
  have hsmall : (rest % 256) >>> (8 - remaining) < 2 ^ remaining := by
    rw [Nat.shiftRight_eq_div_pow, Nat.div_lt_iff_lt_mul (Nat.two_pow_pos _), ← Nat.pow_add,
      Nat.add_sub_cancel' hremaining.le]
    exact Nat.mod_lt rest (by decide)
  have hroom : (rest / 256) <<< remaining < 2 ^ 32 := by
    rw [Nat.shiftLeft_eq]
    have hle : 2 ^ remaining ≤ 2 ^ 8 := Nat.pow_le_pow_right (by decide) hremaining.le
    have hmul := Nat.mul_le_mul_left (rest / 256) hle
    omega
  rw [Nat.mod_eq_of_lt hroom, ← Nat.shiftLeft_add_eq_or_of_lt hsmall, Nat.shiftLeft_eq,
    Nat.shiftRight_eq_div_pow]
  interval_cases remaining <;> omega

theorem pow_256 (k : Nat) : 256 ^ k = 2 ^ (8 * k) := by
  rw [Nat.pow_mul]

theorem leadingBits_eq {n : Nat} (hn : n < 256 ^ width) (hwidth : 4 ≤ width) (hbits : bits ≤ 24) :
    (let leading := ((toBe width n).take (bits / 8)).foldl
        (fun leading byte => (leading <<< 8) % 2 ^ 32 ||| byte.toNat) 0
      if 0 < bits % 8 then
        (leading <<< (bits % 8)) % 2 ^ 32 |||
          ((toBe width n).getD (bits / 8) 0).toNat >>> (8 - bits % 8)
      else leading) = n / 2 ^ (8 * width - bits) := by
  dsimp only
  rw [foldl_take_toBe hn (by omega) (by omega)]
  split
  next hrest =>
    have hbyte := @getElem?_toBe width (bits / 8) n (by omega)
    have hexponent : width - bits / 8 = width - 1 - bits / 8 + 1 := by omega
    have hshift : 8 * width - bits = 8 * (width - 1 - bits / 8) + (8 - bits % 8) := by omega
    have hlt : n / 256 ^ (width - 1 - bits / 8) < 2 ^ 32 := by
      rw [Nat.div_lt_iff_lt_mul (Nat.pow_pos (by decide)), pow_256, ← Nat.pow_add]
      rw [pow_256] at hn
      exact Nat.lt_of_lt_of_le hn (Nat.pow_le_pow_right (by decide) (by omega))
    rw [List.getD_eq_getElem?_getD, hbyte, Option.getD_some, hexponent, hshift, Nat.pow_succ,
      Nat.pow_add, ← pow_256, ← Nat.div_div_eq_div_mul, ← Nat.div_div_eq_div_mul]
    generalize n / 256 ^ (width - 1 - bits / 8) = rest at hlt
    have hbyteNat : (UInt8.ofNat (rest % 256)).toNat = rest % 256 := by simp
    rw [hbyteNat, shiftIn_eq hlt (Nat.mod_lt bits (by decide))]
  next hwhole =>
    have hexponent : 8 * (width - bits / 8) = 8 * width - bits := by omega
    rw [pow_256, hexponent]

/-- The leading bits are what is left of the hash above the others. -/
theorem getPrefix_eq (hash : NodeHash) (hbits : bits ≤ 24) :
    getPrefix hash bits = hash.bytes.toNat / 2 ^ (8 * 32 - bits) :=
  leadingBits_eq hash.bytes.isLt (by decide) hbits

theorem getPrefix_lt (hash : NodeHash) (hbits : bits ≤ 24) :
    getPrefix hash bits < 2 ^ bits := by
  have hsum : bits + (8 * 32 - bits) = 256 := by omega
  rw [getPrefix_eq hash hbits, Nat.div_lt_iff_lt_mul (Nat.two_pow_pos _), ← Nat.pow_add, hsum]
  exact hash.bytes.isLt

theorem getPrefix_mono {first second : NodeHash} (hbits : bits ≤ 24)
    (h : first.bytes.toNat ≤ second.bytes.toNat) :
    getPrefix first bits ≤ getPrefix second bits := by
  rw [getPrefix_eq first hbits, getPrefix_eq second hbits]
  exact Nat.div_le_div_right h

end PackIndex

end MerkleTox.Fs
