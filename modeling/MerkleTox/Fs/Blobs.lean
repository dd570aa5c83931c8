import Mathlib.Data.Nat.Bitwise
import MerkleTox.Fs.Opaque
import MerkleTox.Library.SparseFile

/-! # The blob tier

Large objects are kept by their hashes, each as a data file, a record about it and the
outboard of its tree. The record has a bit for each chunk of 64 KiB that was received.
-/

namespace MerkleTox.Fs

open Library Proto MerkleTox.Core

/-- `CHUNK_SIZE`. -/
def chunkSize : Nat := 64 * 1024

inductive BlobStatus
  | pending
  | downloading
  | available
  | error
  deriving DecidableEq, Repr

structure BlobInfo where
  hash : NodeHash
  size : Nat
  baoRoot : Option Bytes32
  status : BlobStatus
  receivedMask : Option Bytes
  decryptionKey : Option Bytes32
  deriving DecidableEq, Repr

namespace BlobInfo

def numChunks (info : BlobInfo) : Nat := (info.size + chunkSize - 1) / chunkSize

/-- A pending blob is downloading once a chunk arrives. -/
def started (info : BlobInfo) : BlobInfo :=
  if info.status = .pending then { info with status := .downloading } else info

variable (info : BlobInfo)

@[simp]
theorem started_hash : info.started.hash = info.hash := by
  unfold started
  split <;> rfl

@[simp]
theorem started_size : info.started.size = info.size := by
  unfold started
  split <;> rfl

@[simp]
theorem started_receivedMask :
    info.started.receivedMask = info.receivedMask := by
  unfold started
  split <;> rfl

@[simp]
theorem started_numChunks : info.started.numChunks = info.numChunks := by
  rw [numChunks, started_size, numChunks]

end BlobInfo

/-- What the blob tier takes from outside: the outboard and the root of a file. -/
class BaoFormat where
  outboard : Bytes → Bytes × Bytes32

inductive BlobError
  | blobNotFound (hash : NodeHash)
  | io (error : IoError)
  deriving DecidableEq, Repr

/-- The data files, the records and the outboards by their hashes. -/
structure BlobStore where
  blobs : AssocMap NodeHash Bytes
  infos : AssocMap NodeHash BlobInfo
  outboards : AssocMap NodeHash Bytes

/-- The bit of a chunk in its byte of the mask. -/
def maskBit (chunkIndex : Nat) : UInt8 := UInt8.ofNat (2 ^ (chunkIndex % 8))

/-- Set the bit of a chunk in a mask that grows as needed. -/
def markChunk (mask : Bytes) (chunkIndex : Nat) : Bytes :=
  let byteIndex := chunkIndex / 8
  let mask :=
    if mask.length ≤ byteIndex then mask ++ List.replicate (byteIndex + 1 - mask.length) 0
    else mask
  mask.modify byteIndex fun byte => byte ||| maskBit chunkIndex

def hasChunk (mask : Bytes) (chunkIndex : Nat) : Bool :=
  match mask[chunkIndex / 8]? with
  | none => false
  | some byte => byte &&& maskBit chunkIndex ≠ 0

variable (store : BlobStore)

namespace BlobStore

def new : BlobStore := ⟨.empty, .empty, .empty⟩

def getInfo (hash : NodeHash) : Option BlobInfo := store.infos.get hash

def putInfo (info : BlobInfo) : BlobStore :=
  { store with infos := store.infos.insert info.hash info }

/-- `BlobStore::put_chunk`: write to the data file, which is made when there is none. -/
def writeChunk (hash : NodeHash) (offset : Nat) (data : Bytes) : BlobStore :=
  { store with
    blobs := store.blobs.insert hash (writeAt 0 ((store.blobs.get hash).getD []) offset data) }

/-- `BlobStore::get_chunk`. -/
def readChunk (hash : NodeHash) (offset length : Nat) : Except IoError Bytes :=
  match store.blobs.get hash with
  | none => .error .notFound
  | some file =>
      if length = 0 ∨ offset + length ≤ file.length then .ok ((file.drop offset).take length)
      else .error .unexpectedEof

/-- The mask with the bits of all chunks. -/
def fullMask (numChunks : Nat) : Bytes :=
  (List.range numChunks).foldl markChunk (List.replicate ((numChunks + 7) / 8) 0)

def finalize [BaoFormat] (store : BlobStore) (hash : NodeHash) : Except IoError BlobStore :=
  match store.blobs.get hash with
  | none => .error .notFound
  | some data =>
      let (outboard, root) := BaoFormat.outboard data
      let store := { store with outboards := store.outboards.insert hash outboard }
      match store.getInfo hash with
      | none => .ok store
      | some info =>
          .ok (store.putInfo { info with
            status := .available
            baoRoot := some root
            receivedMask := some (fullMask info.numChunks) })

/-! ## The store of blobs -/

def hasBlob (hash : NodeHash) : Bool :=
  (store.getInfo hash).any fun info => info.status = .available

def getBlobInfo (hash : NodeHash) : Option BlobInfo := store.getInfo hash

def putBlobInfo (info : BlobInfo) : BlobStore := store.putInfo info

/-- Every chunk is marked. -/
def isComplete (numChunks : Nat) (mask : Bytes) : Bool :=
  (List.range numChunks).all (hasChunk mask)

/-- The file can be read in full, up to the size narrowed to 32 bits. -/
def readsInFull (hash : NodeHash) (size : Nat) : Bool :=
  match store.readChunk hash 0 (size % 2 ^ 32) with
  | .ok data => data.length = size
  | .error _ => false

def putChunk [BaoFormat] (store : BlobStore) (hash : NodeHash) (offset : Nat) (data : Bytes) :
    Except BlobError BlobStore :=
  match store.getInfo hash with
  | none => .error (.blobNotFound hash)
  | some info =>
      let store := store.writeChunk hash offset data
      let info := info.started
      let mask := markChunk (info.receivedMask.getD []) (offset / chunkSize)
      if isComplete info.numChunks mask && store.readsInFull hash info.size then
        (store.finalize hash).mapError .io
      else .ok (store.putInfo { info with receivedMask := some mask })

/-- A part of the declared size that the file does not have reads as zeros. -/
def getChunk (hash : NodeHash) (offset length : Nat) : Except BlobError Bytes :=
  match store.readChunk hash offset length with
  | .ok data => .ok data
  | .error .unexpectedEof =>
      if (store.getBlobInfo hash).any fun info => offset + length ≤ info.size then
        .ok (List.replicate length 0)
      else .error (.io .unexpectedEof)
  | .error .notFound => .error (.blobNotFound hash)

end BlobStore

/-! ## Masks -/

theorem toNat_maskBit (chunkIndex : Nat) : (maskBit chunkIndex).toNat = 2 ^ (chunkIndex % 8) := by
  have hlt : 2 ^ (chunkIndex % 8) < 2 ^ 8 :=
    Nat.pow_lt_pow_right (by decide) (Nat.mod_lt _ (by decide))
  rw [maskBit, UInt8.toNat_ofNat', Nat.mod_eq_of_lt hlt]

theorem and_maskBit_ne_zero (byte : UInt8) (chunkIndex : Nat) :
    byte &&& maskBit chunkIndex ≠ 0 ↔ byte.toNat.testBit (chunkIndex % 8) = true := by
  rw [Ne, ← UInt8.toNat_inj, UInt8.toNat_and, toNat_maskBit, Nat.and_two_pow,
    UInt8.toNat_zero]
  cases byte.toNat.testBit (chunkIndex % 8) <;> simp

theorem testBit_or_maskBit (byte : UInt8) (chunkIndex bit : Nat) :
    (byte ||| maskBit chunkIndex).toNat.testBit bit =
      (byte.toNat.testBit bit || decide (chunkIndex % 8 = bit)) := by
  rw [UInt8.toNat_or, Nat.testBit_or, toNat_maskBit, Nat.testBit_two_pow]

theorem hasChunk_eq (mask : Bytes) (chunkIndex : Nat) :
    hasChunk mask chunkIndex =
      (mask[chunkIndex / 8]?.getD 0).toNat.testBit (chunkIndex % 8) := by
  unfold hasChunk
  cases mask[chunkIndex / 8]? with
  | none => simp
  | some byte => rw [Bool.eq_iff_iff, decide_eq_true_iff, and_maskBit_ne_zero, Option.getD_some]

/-- Marking a chunk sets its bit and no other. -/
theorem hasChunk_markChunk (mask : Bytes) (chunkIndex other : Nat) :
    hasChunk (markChunk mask chunkIndex) other =
      (hasChunk mask other || decide (other = chunkIndex)) := by
  unfold markChunk
  extract_lets byteIndex grown
  have hgrown : byteIndex < grown.length := by
    simp only [grown]
    split
    · rw [List.length_append, List.length_replicate]
      omega
    · omega
  have hsame : ∀ index : Nat, grown[index]?.getD 0 = mask[index]?.getD 0 := by
    intro index
    simp only [grown]
    split
    · rw [List.getElem?_append]
      split
      · rfl
      next hbeyond =>
        rw [List.getElem?_replicate, List.getElem?_eq_none (Nat.not_lt.mp hbeyond)]
        split <;> rfl
    · rfl
  rw [hasChunk_eq, hasChunk_eq, List.getElem?_modify, ← hsame (other / 8)]
  split
  next heq =>
    rw [← heq, List.getElem?_eq_getElem hgrown, Option.map_eq_map, Option.map_some,
      Option.getD_some, Option.getD_some, testBit_or_maskBit]
    congr 2
    simp only [byteIndex] at heq
    exact propext ⟨fun _ => by omega, fun h => by rw [h]⟩
  next hne =>
    have hother : ¬ other = chunkIndex := fun h => hne (by rw [h])
    rw [decide_eq_false hother, Bool.or_false, id_map']

theorem hasChunk_foldl (chunks : List Nat) (mask : Bytes) (other : Nat) :
    hasChunk (chunks.foldl markChunk mask) other =
      (hasChunk mask other || decide (other ∈ chunks)) := by
  induction chunks generalizing mask with
  | nil => simp
  | cons first rest ih =>
      rw [List.foldl_cons, ih, hasChunk_markChunk, Bool.or_assoc]
      simp

theorem hasChunk_fullMask {numChunks chunkIndex : Nat} (hlt : chunkIndex < numChunks) :
    hasChunk (BlobStore.fullMask numChunks) chunkIndex = true := by
  rw [BlobStore.fullMask, hasChunk_foldl]
  simp [hlt]

end MerkleTox.Fs
