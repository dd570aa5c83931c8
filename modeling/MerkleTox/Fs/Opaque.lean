import MerkleTox.Core.Store

/-! # The store of opaque wire nodes

Wire nodes that cannot be decrypted yet are kept in segment files behind one index. A
record of a segment is its length in four bytes, then its data; the index names the
segment and the offset of each hash. When the segments outgrow their limit the oldest
are evicted, and the anchors among their records move to the newest segment.
-/

namespace MerkleTox.Fs

open Library Proto MerkleTox.Core

/-- The errors of `std::io` that the stores tell apart. -/
inductive IoError
  | notFound
  | unexpectedEof
  deriving DecidableEq, Repr

/-- `u32::to_le_bytes` and its siblings; a longer number loses its high bytes. -/
def toLe (width n : Nat) : Bytes := (toBe width n).reverse

def fromLe (bytes : Bytes) : Nat := fromBe bytes.reverse

/-- A little-endian number of the given width. -/
def readLe (width : Nat) : Reader Nat := fun input =>
  (readExact width input).map fun (bytes, rest) => (fromLe bytes, rest)

/-- What the stores take from outside: BLAKE3, the encodings of wire nodes and of
contents, and zstd. -/
class WireFormat where
  blake3 : Bytes → NodeHash
  serializeWire : WireNode → Bytes
  deserializeWire : Bytes → Option WireNode
  /-- `zstd::decode_all`. -/
  decompress : Bytes → Option Bytes
  deserializeContent : Bytes → Option Content

def opaqueSegmentMaxSize : Nat := 10 * 1024 * 1024

def opaqueTotalMaxSize : Nat := 100 * 1024 * 1024

/-- `WireFlags::COMPRESSED`. -/
def isCompressed (wire : WireNode) : Bool := wire.flags &&& 1 = 1

/-- `WireFlags::ENCRYPTED`. -/
def isEncrypted (wire : WireNode) : Bool := wire.flags &&& 2 = 2

/-- `remove_padding`: drop the zeros at the end and the `0x80` before them. -/
def removePadding (data : Bytes) : Option Bytes :=
  match data.reverse.dropWhile (· = 0) with
  | last :: rest => if last = 0x80 then some rest.reverse else none
  | [] => none

structure OpaqueIndexRecord where
  hash : NodeHash
  segmentId : Nat
  offset : Nat
  deriving DecidableEq, Repr

/-- The segment files by their ids, the ids with a lock file beside them, and the index. -/
structure OpaqueStore where
  segments : AssocMap Nat Bytes
  locks : List Nat
  index : List OpaqueIndexRecord

/-- A record of a segment and the bytes behind it. -/
def readFrame : Reader Bytes := fun input => do
  let (length, rest) ← readLe 4 input
  readExact length rest

def writeFrame (data : Bytes) : Bytes := toLe 4 data.length ++ data

/-- The records of a segment up to the first that the file cuts short; the first argument
bounds their number, which the length of the file does. -/
def readFrames : Nat → Bytes → List Bytes
  | 0, _ => []
  | fuel + 1, input =>
      match readFrame input with
      | some (data, rest) => data :: readFrames fuel rest
      | none => []

def framesOf (contents : Bytes) : List Bytes := readFrames contents.length contents

variable (store : OpaqueStore)

namespace OpaqueStore

def new : OpaqueStore := ⟨.empty, [], []⟩

/-- The segments in the order of their ids. -/
def sortedSegments : List (Nat × Bytes) :=
  sortByKey Prod.fst store.segments.entries

/-- The segment that takes a record of the given length: the newest while it has room. -/
def segmentFor (length : Nat) : Nat :=
  match store.sortedSegments.getLast? with
  | some (id, contents) =>
      if contents.length + length + 4 ≤ opaqueSegmentMaxSize then id else id + 1
  | none => 1

/-- Append a record; the result is its segment and its offset there. -/
def writeToNewest (data : Bytes) : (Nat × Nat) × OpaqueStore :=
  let id := store.segmentFor data.length
  let contents := (store.segments.get id).getD []
  ((id, contents.length % 2 ^ 32),
    { store with segments := store.segments.insert id (contents ++ writeFrame data) })

/-- Point a hash at a record, keeping the index sorted by hash. -/
def placeRecord (hash : NodeHash) (segmentId offset : Nat)
    (records : List OpaqueIndexRecord) : List OpaqueIndexRecord :=
  if records.any fun record => record.hash = hash then
    records.map fun record => if record.hash = hash then ⟨hash, segmentId, offset⟩ else record
  else sortByKey (fun record => record.hash.bytes.toNat) (records ++ [⟨hash, segmentId, offset⟩])

def updateIndex (hash : NodeHash) (segmentId offset : Nat) : OpaqueStore :=
  { store with index := placeRecord hash segmentId offset store.index }

def totalSize : Nat := store.segments.total fun _ contents => contents.length

def getNode (hash : NodeHash) : Except IoError (Option Bytes) :=
  match store.index.find? fun record => record.hash = hash with
  | none => .ok none
  | some record =>
      match store.segments.get record.segmentId with
      | none => .error .notFound
      | some contents =>
          match readFrame (contents.drop record.offset) with
          | none => .error .unexpectedEof
          | some (data, _) => .ok (some data)

def removeNode (hash : NodeHash) : OpaqueStore :=
  { store with index := store.index.filter fun record => record.hash ≠ hash }

def hashes : List NodeHash := store.index.map OpaqueIndexRecord.hash

variable [WireFormat]

/-- A wire node in the clear that carries a key wrap. -/
def isKeyWrap (wire : WireNode) : Bool :=
  if isEncrypted wire then false
  else
    match removePadding wire.payloadData with
    | none => false
    | some payload =>
        let payload :=
          if isCompressed wire then (WireFormat.decompress payload).getD payload else payload
        8 ≤ payload.length &&
          (WireFormat.deserializeContent (payload.drop 8)).any Content.isKeyWrap

def isAnchor (wire : WireNode) : Bool := wire.authentication.isSignature || isKeyWrap wire

/-- The hash under which the data of an anchor is kept on: that of the wire form. -/
def anchorHash (data : Bytes) : Option NodeHash :=
  match WireFormat.deserializeWire data with
  | some wire =>
      if isAnchor wire then some (WireFormat.blake3 (WireFormat.serializeWire wire)) else none
  | none => none

/-- The anchors of a segment with their hashes. -/
def anchorsOf (contents : Bytes) : List (NodeHash × Bytes) :=
  (framesOf contents).filterMap fun data => (anchorHash data).map fun hash => (hash, data)

/-- Write an anchor to the newest segment and point its hash there. -/
def carryOver (anchor : NodeHash × Bytes) : OpaqueStore :=
  let ((segmentId, offset), store) := store.writeToNewest anchor.2
  store.updateIndex anchor.1 segmentId offset

/-- Carry the anchors of a segment over and delete it. -/
def pruneSegment (segmentId : Nat) : OpaqueStore :=
  let anchors := anchorsOf ((store.segments.get segmentId).getD [])
  let dropped := { store with
    index := store.index.filter fun record => record.segmentId ≠ segmentId }
  let carried := anchors.foldl carryOver dropped
  { carried with segments := carried.segments.erase segmentId }

/-- Evict segments, the oldest first, until what is left of the total is within the limit. -/
def evict (store : OpaqueStore) : Nat → List Nat → OpaqueStore
  | _, [] => store
  | totalSize, id :: rest =>
      if totalSize ≤ opaqueTotalMaxSize then store
      else if store.locks.contains id then store.evict totalSize rest
      else
        let length := ((store.segments.get id).getD []).length
        (store.pruneSegment id).evict (totalSize - length) rest

def checkEviction : OpaqueStore :=
  store.evict store.totalSize (store.sortedSegments.map Prod.fst)

def putNode (hash : NodeHash) (data : Bytes) : OpaqueStore :=
  let ((segmentId, offset), store) := store.writeToNewest data
  (store.updateIndex hash segmentId offset).checkEviction

end OpaqueStore

end MerkleTox.Fs
