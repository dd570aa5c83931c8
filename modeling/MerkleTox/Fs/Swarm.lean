import MerkleTox.Fs.Blobs

/-! # Fetching blobs from a swarm

`merkle_tox_core::cas` and the blob messages of the engine. A blob is asked for in chunks of
64 KiB from the peers that have it; a slice that comes in marks the chunk that its offset is
in. What is sent and what is written for a blob are effects of the engine.
-/

namespace MerkleTox.Fs

open Library Proto MerkleTox.Core

/-- The bao crate: the slice of a file with its outboard, and the data of a slice under a root.
-/
class BaoSlices extends BaoFormat where
  /-- `SliceExtractor::new_outboard` read to its end: file, outboard, offset and length. -/
  extract : Bytes → Bytes → Nat → Nat → Except IoError Bytes
  /-- `SliceDecoder` read to its end: slice, root, offset and length. -/
  decode : Bytes → Bytes32 → Nat → Nat → Option Bytes

structure BlobReq where
  hash : NodeHash
  offset : Nat
  length : Nat
  deriving DecidableEq, Repr

structure BlobData where
  hash : NodeHash
  offset : Nat
  data : Bytes
  proof : Bytes
  deriving DecidableEq, Repr

def BlobData.verify [BaoSlices] (chunk : BlobData) (baoRoot : Bytes32) : Bool :=
  match BaoSlices.decode chunk.proof baoRoot chunk.offset chunk.data.length with
  | some decoded => decoded = chunk.data
  | none => false

/-- `FETCH_TIMEOUT`, in milliseconds. -/
def fetchTimeout : Nat := 15000

structure ChunkTracker where
  hash : NodeHash
  totalSize : Nat
  receivedMask : Bytes
  deriving DecidableEq, Repr

namespace ChunkTracker

def numChunks (tracker : ChunkTracker) : Nat := (tracker.totalSize + chunkSize - 1) / chunkSize

def new (hash : NodeHash) (totalSize : Nat) : ChunkTracker where
  hash := hash
  totalSize := totalSize
  receivedMask := List.replicate (((totalSize + chunkSize - 1) / chunkSize + 7) / 8) 0

/-- Set the bit of a chunk if the mask has it. -/
def markReceived (tracker : ChunkTracker) (chunkIndex : Nat) : ChunkTracker :=
  { tracker with receivedMask :=
      tracker.receivedMask.modify (chunkIndex / 8) fun byte => byte ||| maskBit chunkIndex }

def isReceived (tracker : ChunkTracker) (chunkIndex : Nat) : Bool :=
  hasChunk tracker.receivedMask chunkIndex

def isComplete (tracker : ChunkTracker) : Bool :=
  (List.range tracker.numChunks).all tracker.isReceived

/-- The first chunk missing from the hint on, else the first one before it. -/
def nextMissing (tracker : ChunkTracker) (hint : Nat) : Option Nat :=
  ((List.range' hint (tracker.numChunks - hint)).find? fun index => !tracker.isReceived index).or
    ((List.range hint).find? fun index => !tracker.isReceived index)

end ChunkTracker

structure SwarmSync where
  info : BlobInfo
  tracker : ChunkTracker
  seeders : List PhysicalDevicePk
  activeFetches : AssocMap Nat (PhysicalDevicePk × Nat)

namespace SwarmSync

def new (info : BlobInfo) : SwarmSync := ⟨info, .new info.hash info.size, [], .empty⟩

def addSeeder (sync : SwarmSync) (peer : PhysicalDevicePk) : SwarmSync :=
  { sync with seeders := insertOnce sync.seeders peer }

def removeSeeder (sync : SwarmSync) (peer : PhysicalDevicePk) : SwarmSync :=
  { sync with
      seeders := sync.seeders.filter (· ≠ peer)
      activeFetches := sync.activeFetches.retain fun _ fetch => fetch.1 ≠ peer }

def clearStalledFetches (sync : SwarmSync) (now : Nat) : SwarmSync :=
  { sync with
      activeFetches := sync.activeFetches.retain fun _ fetch => now - fetch.2 < fetchTimeout }

/-- How many chunks are being fetched from a peer. -/
def inFlight (sync : SwarmSync) (peer : PhysicalDevicePk) : Nat :=
  (sync.activeFetches.values.filter fun fetch => fetch.1 = peer).length

/-- The seeder with the fewest fetches among those with fewer than four. -/
def pickSeeder (sync : SwarmSync) : Option PhysicalDevicePk :=
  (sync.seeders.filter fun peer => sync.inFlight peer < 4).foldl (fun best peer =>
    match best with
    | none => some peer
    | some other =>
        if sync.inFlight peer < sync.inFlight other ∨
            (sync.inFlight peer = sync.inFlight other ∧ peer.bytes.toNat < other.bytes.toNat)
        then some peer
        else some other) none

/-- Ask the seeder with the fewest fetches for a chunk that is not being fetched. -/
def ask (now index : Nat) (sync : SwarmSync) (reqs : List (PhysicalDevicePk × BlobReq)) :
    List (PhysicalDevicePk × BlobReq) × SwarmSync :=
  if sync.activeFetches.contains index then (reqs, sync)
  else
    match sync.pickSeeder with
    | none => (reqs, sync)
    | some seeder =>
        (reqs ++ [(seeder, ⟨sync.info.hash, index * chunkSize, chunkSize⟩)],
          { sync with activeFetches := sync.activeFetches.insert index (seeder, now) })

/-- The variables of the request loop. -/
structure Requesting where
  hint : Nat
  sync : SwarmSync
  reqs : List (PhysicalDevicePk × BlobReq)

/-- One round over the chunks; `none` breaks off the loop. -/
def requestRound (maxTotalRequests now : Nat) (state : Requesting) : Option Requesting :=
  if maxTotalRequests ≤ state.reqs.length then none
  else
    (state.sync.tracker.nextMissing state.hint).map fun index =>
      let (reqs, sync) := ask now index state.sync state.reqs
      ⟨index + 1, sync, reqs⟩

def requestLoop (maxTotalRequests now : Nat) : Nat → Requesting → Requesting
  | 0, state => state
  | rounds + 1, state =>
      match requestRound maxTotalRequests now state with
      | none => state
      | some next => requestLoop maxTotalRequests now rounds next

def nextRequests (sync : SwarmSync) (maxTotalRequests now : Nat) :
    List (PhysicalDevicePk × BlobReq) × SwarmSync :=
  let last := requestLoop maxTotalRequests now sync.info.numChunks ⟨0, sync, []⟩
  (last.reqs, last.sync)

/-- The root is checked when it is known; then the chunk of the offset is marked. -/
def onChunkReceived [BaoSlices] (sync : SwarmSync) (chunk : BlobData) : Bool × SwarmSync :=
  let fetched := { sync with
    activeFetches := sync.activeFetches.erase (chunk.offset / chunkSize) }
  if sync.info.baoRoot.any fun baoRoot => !chunk.verify baoRoot then (false, fetched)
  else (true, { fetched with tracker := sync.tracker.markReceived (chunk.offset / chunkSize) })

end SwarmSync

namespace ChunkTracker

/-- Marking sets the bit of the chunk if the mask has it, and no other. -/
theorem isReceived_markReceived (tracker : ChunkTracker) (chunkIndex other : Nat) :
    (tracker.markReceived chunkIndex).isReceived other = (tracker.isReceived other ||
      (decide (other = chunkIndex) && decide (chunkIndex / 8 < tracker.receivedMask.length))) := by
  by_cases hroom : chunkIndex / 8 < tracker.receivedMask.length
  · have hmark : markChunk tracker.receivedMask chunkIndex =
        (tracker.markReceived chunkIndex).receivedMask := by
      rw [markChunk, if_neg (Nat.not_le.mpr hroom)]
      rfl
    rw [isReceived, ← hmark, hasChunk_markChunk, decide_eq_true hroom, Bool.and_true]
    rfl
  · have hmark : (tracker.markReceived chunkIndex).receivedMask = tracker.receivedMask := by
      rw [markReceived, List.modify_eq_self (Nat.not_lt.mp hroom)]
    rw [isReceived, hmark, decide_eq_false hroom, Bool.and_false, Bool.or_false]
    rfl

theorem isComplete_iff {tracker : ChunkTracker} : tracker.isComplete = true ↔
    ∀ chunkIndex < tracker.numChunks, tracker.isReceived chunkIndex = true := by
  rw [isComplete, List.all_eq_true]
  simp only [List.mem_range]

/-- A new tracker has no chunk. -/
theorem isReceived_new (hash : NodeHash) (totalSize chunkIndex : Nat) :
    (new hash totalSize).isReceived chunkIndex = false := by
  rw [isReceived, hasChunk_eq, new, List.getElem?_replicate]
  split <;> simp

end ChunkTracker

namespace SwarmSync

/-- The record and the tracker are the same. -/
structure Tracks (sync other : SwarmSync) : Prop where
  info : other.info = sync.info
  tracker : other.tracker = sync.tracker

theorem Tracks.trans {sync other third : SwarmSync} (hfirst : Tracks sync other)
    (hsecond : Tracks other third) : Tracks sync third where
  info := hsecond.info.trans hfirst.info
  tracker := hsecond.tracker.trans hfirst.tracker

theorem ask_frame (now index : Nat) (sync : SwarmSync)
    (reqs : List (PhysicalDevicePk × BlobReq)) :
    Tracks sync (ask now index sync reqs).2 ∧ (ask now index sync reqs).2.seeders =
      sync.seeders := by
  unfold ask
  split
  · exact ⟨⟨rfl, rfl⟩, rfl⟩
  · split
    · exact ⟨⟨rfl, rfl⟩, rfl⟩
    · exact ⟨⟨rfl, rfl⟩, rfl⟩

/-- A round that does not break off the loop asks for a missing chunk. -/
theorem requestRound_eq_some {maxTotalRequests now : Nat} {state next : Requesting}
    (hround : requestRound maxTotalRequests now state = some next) :
    ∃ index, state.sync.tracker.nextMissing state.hint = some index ∧
      next = ⟨index + 1, (ask now index state.sync state.reqs).2,
        (ask now index state.sync state.reqs).1⟩ := by
  unfold requestRound at hround
  split at hround
  · cases hround
  · obtain ⟨index, hindex, rfl⟩ := Option.map_eq_some_iff.mp hround
    exact ⟨index, hindex, rfl⟩

/-- Asking for chunks changes nothing but what is being fetched. -/
theorem requestLoop_frame (maxTotalRequests now rounds : Nat) (state : Requesting) :
    Tracks state.sync (requestLoop maxTotalRequests now rounds state).sync ∧
      (requestLoop maxTotalRequests now rounds state).sync.seeders = state.sync.seeders := by
  induction rounds generalizing state with
  | zero => exact ⟨⟨rfl, rfl⟩, rfl⟩
  | succ rounds ih =>
      rw [requestLoop]
      split
      next => exact ⟨⟨rfl, rfl⟩, rfl⟩
      next next hround =>
        obtain ⟨index, -, rfl⟩ := requestRound_eq_some hround
        obtain ⟨hasked, hseeders⟩ := ask_frame now index state.sync state.reqs
        obtain ⟨htracks, hkept⟩ := ih ⟨index + 1, (ask now index state.sync state.reqs).2,
          (ask now index state.sync state.reqs).1⟩
        exact ⟨hasked.trans htracks, hkept.trans hseeders⟩

/-- A poll changes nothing about a sync but what is being fetched. -/
theorem tracks_nextRequests (sync : SwarmSync) (maxTotalRequests now : Nat) :
    Tracks sync (sync.nextRequests maxTotalRequests now).2 := by
  obtain ⟨last, hlast⟩ : ∃ last, last =
      requestLoop maxTotalRequests now sync.info.numChunks ⟨0, sync, []⟩ := ⟨_, rfl⟩
  have hframe : Tracks sync last.sync :=
    hlast ▸ (requestLoop_frame maxTotalRequests now _ ⟨0, sync, []⟩).1
  rw [nextRequests, ← hlast]
  exact hframe

end SwarmSync

/-! ## The engine -/

inductive BlobEffect
  | writeBlobInfo (info : BlobInfo)
  | writeChunk (hash : NodeHash) (offset : Nat) (data proof : Bytes)
  | blobAvailable (hash : NodeHash)
  deriving DecidableEq, Repr

/-- A blob message with its sender and what the blob store has at that time, if there is one;
a history export addressed to this device, with the record made of it; and a poll. -/
inductive BlobEvent
  | blobAvail (senderPk : PhysicalDevicePk) (info : BlobInfo)
      (hasBlob : Option (NodeHash → Bool))
  | blobData (senderPk : PhysicalDevicePk) (chunk : BlobData)
      (hasBlob : Option (NodeHash → Bool))
  | historyExport (info : BlobInfo)
  | poll (now : Nat)

/-- `blob_syncs`. -/
abbrev BlobSyncs := AssocMap NodeHash SwarmSync

namespace BlobSyncs

/-- The handler of `BlobAvail`: a further seeder, or a new sync on the word of the first. -/
def onBlobAvail (syncs : BlobSyncs) (senderPk : PhysicalDevicePk) (info : BlobInfo)
    (hasBlob : Option (NodeHash → Bool)) : BlobSyncs × List BlobEffect :=
  match syncs.get info.hash with
  | some sync =>
      if sync.info.baoRoot.isSome ∧ info.baoRoot ≠ sync.info.baoRoot then
        (syncs.insert info.hash (sync.removeSeeder senderPk), [])
      else (syncs.insert info.hash (sync.addSeeder senderPk), [])
  | none =>
      if hasBlob.any fun has => !has info.hash then
        let localInfo := { info with status := .pending }
        (syncs.insert info.hash ((SwarmSync.new localInfo).addSeeder senderPk),
          [.writeBlobInfo localInfo])
      else (syncs, [])

/-- The handler of `BlobData`. -/
def onBlobData [BaoSlices] (syncs : BlobSyncs) (senderPk : PhysicalDevicePk) (chunk : BlobData)
    (hasBlob : Option (NodeHash → Bool)) : BlobSyncs × List BlobEffect :=
  match syncs.get chunk.hash with
  | none => (syncs, [])
  | some sync =>
      let (accepted, sync) := sync.onChunkReceived chunk
      if accepted && hasBlob.isSome then
        let write := BlobEffect.writeChunk chunk.hash chunk.offset chunk.data chunk.proof
        if sync.tracker.isComplete then
          (syncs.erase chunk.hash, [write, .writeBlobInfo { sync.info with status := .available },
            .blobAvailable chunk.hash])
        else (syncs.insert chunk.hash sync, [write])
      else (syncs.insert chunk.hash (sync.removeSeeder senderPk), [])

/-- `poll` asks for up to four chunks of each blob; the requests are not looked at here. -/
def onPoll (syncs : BlobSyncs) (now : Nat) : BlobSyncs :=
  syncs.mapValues fun _ sync => ((sync.clearStalledFetches now).nextRequests 4 now).2

def step [BaoSlices] (state : BlobSyncs × List BlobEffect) :
    BlobEvent → BlobSyncs × List BlobEffect
  | .blobAvail senderPk info hasBlob =>
      let (syncs, effects) := state.1.onBlobAvail senderPk info hasBlob
      (syncs, state.2 ++ effects)
  | .blobData senderPk chunk hasBlob =>
      let (syncs, effects) := state.1.onBlobData senderPk chunk hasBlob
      (syncs, state.2 ++ effects)
  | .historyExport info =>
      (state.1.insert info.hash (.new { info with status := .pending, receivedMask := none }),
        state.2)
  | .poll now => (state.1.onPoll now, state.2)

end BlobSyncs

end MerkleTox.Fs
