import Mathlib.Data.Finset.Card
import Mathlib.Order.Interval.Finset.Nat
import MerkleTox.Core.Arithmetic
import MerkleTox.Fs.SwarmIntegrity

/-! # Serving blobs to a swarm

A side that has a blob answers requests for parts of it, and a side that fetches it asks for
whole chunks. The answer indexes the file with the bounds of the request, also where the last
chunk is shorter than what is asked for.
-/

namespace MerkleTox.Fs

open Library Proto MerkleTox.Core
open BlobStore (Covers Covered)

/-- `&file[offset..offset + length]`; `none` is a panic. -/
def sliceFile (file : Bytes) (offset length : Nat) : Option Bytes := do
  let stop ← addU64 offset length
  if stop ≤ file.length then some ((file.drop offset).take length) else none

/-- `get_chunk_with_proof`; `none` is a panic. -/
def BlobStore.getChunkWithProof [BaoSlices] (store : BlobStore) (hash : NodeHash)
    (offset length : Nat) : Option (Except IoError (Bytes × Bytes)) :=
  match store.blobs.get hash with
  | none => some (.error .notFound)
  | some file =>
      match store.outboards.get hash with
      | none => (sliceFile file offset length).map fun raw => .ok (raw, [])
      | some outboard =>
          match BaoSlices.extract file outboard offset length with
          | .error error => some (.error error)
          | .ok slice => (sliceFile file offset length).map fun raw => .ok (raw, slice)

/-- The blob is held completely, with its outboard if it has one. -/
structure BlobStore.Holds [BaoSlices] (store : BlobStore) (hash : NodeHash) (blob : Bytes) :
    Prop where
  file : store.blobs.get hash = some blob
  outboard : ∀ outboard, store.outboards.get hash = some outboard →
    outboard = (BaoFormat.outboard blob).1

/-- A request is answered with an error or with the bytes that the blob has of the range. -/
def BlobStore.Serves [BaoSlices] (store : BlobStore) (hash : NodeHash) (blob : Bytes)
    (offset length : Nat) : Prop :=
  ∃ result, store.getChunkWithProof hash offset length = some result ∧
    ∀ data proof, result = .ok (data, proof) → data = (blob.drop offset).take length

/-! ## A download -/

section Download

variable [BaoSlices]

/-- Ask for a chunk and receive the answer; a request that ends in a panic has none. -/
def fetchChunk (store : BlobStore) (state : SwarmSync × List BlobData) (req : BlobReq) :
    SwarmSync × List BlobData :=
  match store.getChunkWithProof req.hash req.offset req.length with
  | some (.ok (data, proof)) =>
      let chunk : BlobData := ⟨req.hash, req.offset, data, proof⟩
      let (accepted, sync) := state.1.onChunkReceived chunk
      (sync, if accepted then state.2 ++ [chunk] else state.2)
  | _ => state

/-- One poll: its requests are sent and answered. -/
def fetchRound (store : BlobStore) (now : Nat) (state : SwarmSync × List BlobData) :
    SwarmSync × List BlobData :=
  let (reqs, sync) := (state.1.clearStalledFetches now).nextRequests 4 now
  (reqs.map Prod.snd).foldl (fetchChunk store) (sync, state.2)

/-- A download from one seeder after a number of polls. -/
def download (store : BlobStore) (info : BlobInfo) (peer : PhysicalDevicePk) (now : Nat) :
    Nat → SwarmSync × List BlobData
  | 0 => ((SwarmSync.new info).addSeeder peer, [])
  | rounds + 1 => fetchRound store now (download store info peer now rounds)

/-- The parts that were received. -/
def pieces (received : List BlobData) : List (Nat × Bytes) :=
  received.map fun chunk => (chunk.offset, chunk.data)

end Download

/-! ## Requests -/

theorem sliceFile_eq (file : Bytes) (offset length : Nat) :
    sliceFile file offset length =
      if offset + length ≤ u64Max ∧ offset + length ≤ file.length then
        some ((file.drop offset).take length) else none := by
  unfold sliceFile addU64
  by_cases hfits : offset + length ≤ u64Max
  · simp [hfits]
  · simp [hfits]

/-- The crate extracts slices of the blob, which verify under its root. -/
def Extracts [BaoSlices] (blob : Bytes) : Prop :=
  ∀ offset length, ∃ slice,
    BaoSlices.extract blob (BaoFormat.outboard blob).1 offset length = .ok slice ∧
      (offset + length ≤ blob.length → BaoSlices.decode slice (BaoFormat.outboard blob).2
        offset length = some ((blob.drop offset).take length))

section Serving

variable [BaoSlices] {store : BlobStore} {hash : NodeHash} {blob : Bytes}

/-- The answer to a request for a part of a blob that is held. -/
theorem getChunkWithProof_eq (hholds : store.Holds hash blob) (hextracts : Extracts blob)
    (offset length : Nat) :
    ∃ proof, store.getChunkWithProof hash offset length =
        (sliceFile blob offset length).map (fun raw => .ok (raw, proof)) ∧
      (store.outboards.get hash = some (BaoFormat.outboard blob).1 →
        offset + length ≤ blob.length → BaoSlices.decode proof (BaoFormat.outboard blob).2
          offset length = some ((blob.drop offset).take length)) := by
  unfold BlobStore.getChunkWithProof
  rw [hholds.file]
  cases houtboard : store.outboards.get hash with
  | none => exact ⟨[], rfl, fun hsome => nomatch hsome⟩
  | some outboard =>
      obtain ⟨slice, hslice, hdecode⟩ := hextracts offset length
      rw [← hholds.outboard outboard houtboard] at hslice
      refine ⟨slice, ?_, fun _ => hdecode⟩
      simp only [hslice]

theorem serves_iff (hholds : store.Holds hash blob) (hextracts : Extracts blob)
    (hsize : blob.length ≤ u64Max) (offset length : Nat) :
    store.Serves hash blob offset length ↔ offset + length ≤ blob.length := by
  obtain ⟨proof, hanswer, -⟩ := getChunkWithProof_eq hholds hextracts offset length
  rw [BlobStore.Serves, hanswer, sliceFile_eq]
  constructor
  · rintro ⟨result, hresult, -⟩
    by_contra hbeyond
    rw [if_neg fun hfits => hbeyond hfits.2] at hresult
    cases hresult
  · intro hwithin
    rw [if_pos ⟨hwithin.trans hsize, hwithin⟩]
    refine ⟨_, rfl, fun data other heq => ?_⟩
    cases heq
    rfl

end Serving

/-! ## What a poll asks for -/

section Requests

variable {tracker : ChunkTracker} {sync : SwarmSync} {hint index : Nat}

theorem nextMissing_spec (hhint : hint ≤ tracker.numChunks)
    (hmissing : tracker.nextMissing hint = some index) :
    index < tracker.numChunks ∧ tracker.isReceived index = false := by
  rcases Option.or_eq_some_iff.mp hmissing with hfind | ⟨-, hfind⟩
  · have hmem := List.mem_range'_1.mp (List.mem_of_find?_eq_some hfind)
    have hnot := List.find?_some hfind
    rw [Bool.not_eq_true'] at hnot
    exact ⟨by omega, hnot⟩
  · have hmem := List.mem_range.mp (List.mem_of_find?_eq_some hfind)
    have hnot := List.find?_some hfind
    rw [Bool.not_eq_true'] at hnot
    exact ⟨by omega, hnot⟩

theorem nextMissing_isSome (hindex : index < tracker.numChunks)
    (hnot : tracker.isReceived index = false) : ∃ first, tracker.nextMissing 0 = some first := by
  have hfound : ((List.range' 0 (tracker.numChunks - 0)).find? fun index =>
      !tracker.isReceived index).isSome = true := by
    rw [List.find?_isSome]
    exact ⟨index, List.mem_range'_1.mpr ⟨Nat.zero_le _, by omega⟩, by rw [hnot]; rfl⟩
  obtain ⟨first, hfirst⟩ := Option.isSome_iff_exists.mp hfound
  exact ⟨first, by rw [ChunkTracker.nextMissing, hfirst]; rfl⟩

/-- A request for a chunk of the blob. -/
def AsksFor (sync : SwarmSync) (req : BlobReq) (index : Nat) : Prop :=
  index < sync.tracker.numChunks ∧ req = ⟨sync.info.hash, index * chunkSize, chunkSize⟩

/-- What asking adds: requests for chunks, each of which is then being fetched. -/
structure Asks (before after : SwarmSync.Requesting) : Prop where
  subset : before.reqs ⊆ after.reqs
  chunks : ∀ req ∈ after.reqs, req ∈ before.reqs ∨ ∃ index, AsksFor before.sync req.2 index
  fetches : ∀ index, after.sync.activeFetches.contains index = true →
    before.sync.activeFetches.contains index = true ∨
      ∃ req ∈ after.reqs, AsksFor before.sync req.2 index

theorem Asks.refl (state : SwarmSync.Requesting) : Asks state state where
  subset := List.Subset.refl _
  chunks _ hmem := .inl hmem
  fetches _ hactive := .inl hactive

theorem asksFor_congr {other : SwarmSync} (htracks : SwarmSync.Tracks sync other)
    (req : BlobReq) : AsksFor other req index ↔ AsksFor sync req index := by
  rw [AsksFor, AsksFor, htracks.info, htracks.tracker]

theorem Asks.trans {first second third : SwarmSync.Requesting}
    (htracks : SwarmSync.Tracks first.sync second.sync) (hfirst : Asks first second)
    (hsecond : Asks second third) : Asks first third where
  subset := List.Subset.trans hfirst.subset hsecond.subset
  chunks req hmem := by
    rcases hsecond.chunks req hmem with hmem | ⟨index, hindex⟩
    · exact hfirst.chunks req hmem
    · exact .inr ⟨index, (asksFor_congr htracks req.2).mp hindex⟩
  fetches index hactive := by
    rcases hsecond.fetches index hactive with hactive | ⟨req, hmem, hindex⟩
    · rcases hfirst.fetches index hactive with hactive | ⟨req, hmem, hindex⟩
      · exact .inl hactive
      · exact .inr ⟨req, hsecond.subset hmem, hindex⟩
    · exact .inr ⟨req, hmem, (asksFor_congr htracks req.2).mp hindex⟩

theorem asks_ask (now hint : Nat) (sync : SwarmSync) (reqs : List (PhysicalDevicePk × BlobReq))
    (hindex : index < sync.tracker.numChunks) :
    Asks ⟨hint, sync, reqs⟩ ⟨index + 1, (SwarmSync.ask now index sync reqs).2,
      (SwarmSync.ask now index sync reqs).1⟩ := by
  have hnothing : Asks ⟨hint, sync, reqs⟩ ⟨index + 1, sync, reqs⟩ :=
    ⟨List.Subset.refl _, fun _ hmem => .inl hmem, fun _ hactive => .inl hactive⟩
  unfold SwarmSync.ask
  split
  · exact hnothing
  · split
    · exact hnothing
    next seeder _ =>
      have hnew : AsksFor sync ⟨sync.info.hash, index * chunkSize, chunkSize⟩ index :=
        ⟨hindex, rfl⟩
      refine ⟨List.subset_append_left _ _, fun req hmem => ?_, fun other hactive => ?_⟩
      · rcases List.mem_append.mp hmem with hmem | hmem
        · exact .inl hmem
        · rw [List.mem_singleton.mp hmem]
          exact .inr ⟨index, hnew⟩
      · rw [AssocMap.contains_eq, AssocMap.get_insert] at hactive
        split at hactive
        next heq =>
          rw [heq]
          exact .inr ⟨_, List.mem_append_right _ List.mem_cons_self, hnew⟩
        next =>
          rw [← AssocMap.contains_eq] at hactive
          exact .inl hactive

theorem asks_requestLoop (maxTotalRequests now rounds : Nat) (state : SwarmSync.Requesting)
    (hhint : state.hint ≤ state.sync.tracker.numChunks) :
    Asks state (SwarmSync.requestLoop maxTotalRequests now rounds state) := by
  induction rounds generalizing state with
  | zero => exact Asks.refl state
  | succ rounds ih =>
      rw [SwarmSync.requestLoop]
      split
      next => exact Asks.refl state
      next next hround =>
        obtain ⟨index, hmissing, rfl⟩ := SwarmSync.requestRound_eq_some hround
        obtain ⟨hindex, -⟩ := nextMissing_spec hhint hmissing
        have htracks := (SwarmSync.ask_frame now index state.sync state.reqs).1
        refine (asks_ask now state.hint state.sync state.reqs hindex).trans htracks (ih _ ?_)
        rw [htracks.tracker]
        exact hindex

/-- A poll with nothing in flight asks for a missing chunk if there is one. -/
theorem asks_missing {peer : PhysicalDevicePk} (now : Nat) (hseeders : sync.seeders = [peer])
    (hidle : ∀ index, sync.activeFetches.get index = none)
    (htotal : sync.info.numChunks = sync.tracker.numChunks)
    (hindex : index < sync.tracker.numChunks) (hnot : sync.tracker.isReceived index = false) :
    ∃ req ∈ (sync.nextRequests 4 now).1, ∃ first, AsksFor sync req.2 first ∧
      sync.tracker.isReceived first = false := by
  obtain ⟨first, hfirst⟩ := nextMissing_isSome hindex hnot
  obtain ⟨hbound, hmissing⟩ := nextMissing_spec (Nat.zero_le _) hfirst
  have hentries : sync.activeFetches.entries = [] := by
    refine List.eq_nil_iff_forall_not_mem.mpr fun entry hmem => ?_
    have hget := AssocMap.get_eq_some_iff.mpr hmem
    rw [hidle] at hget
    cases hget
  have hcount : ∀ other, sync.inFlight other = 0 := by
    intro other
    rw [SwarmSync.inFlight, AssocMap.values, hentries]
    rfl
  -- With nothing in flight the only seeder is free.
  have hpick : sync.pickSeeder = some peer := by
    rw [SwarmSync.pickSeeder, hseeders]
    simp [hcount]
  obtain ⟨rounds, hrounds⟩ : ∃ rounds, sync.info.numChunks = rounds + 1 :=
    Nat.exists_eq_add_one.mpr (by omega)
  have hactive : sync.activeFetches.contains first = false := by
    rw [AssocMap.contains_eq, hidle]
    rfl
  obtain ⟨asking, hasking⟩ : ∃ asking : SwarmSync, asking =
      { sync with activeFetches := sync.activeFetches.insert first (peer, now) } := ⟨_, rfl⟩
  obtain ⟨req, hreq⟩ : ∃ req : BlobReq, req =
      ⟨sync.info.hash, first * chunkSize, chunkSize⟩ := ⟨_, rfl⟩
  have hasked : SwarmSync.ask now first sync [] = ([(peer, req)], asking) := by
    rw [SwarmSync.ask, hactive, hpick, hreq, hasking]
    rfl
  have hround : SwarmSync.requestRound 4 now ⟨0, sync, []⟩ =
      some ⟨first + 1, asking, [(peer, req)]⟩ := by
    simp [SwarmSync.requestRound, hfirst, hasked]
  have hloop : sync.nextRequests 4 now =
      ((SwarmSync.requestLoop 4 now rounds ⟨first + 1, asking, [(peer, req)]⟩).reqs,
        (SwarmSync.requestLoop 4 now rounds ⟨first + 1, asking, [(peer, req)]⟩).sync) := by
    rw [SwarmSync.nextRequests, hrounds, SwarmSync.requestLoop, hround]
  have hbelow : first + 1 ≤ asking.tracker.numChunks := by
    rw [hasking]
    exact hbound
  rw [hloop]
  exact ⟨(peer, req), (asks_requestLoop 4 now rounds _ hbelow).subset List.mem_cons_self,
    first, ⟨hbound, hreq⟩, hmissing⟩

end Requests

/-! ## Rounds -/

section Rounds

variable [BaoSlices] {store : BlobStore} {hash : NodeHash} {blob : Bytes} {info : BlobInfo}
variable {peer : PhysicalDevicePk} {now : Nat} {state : SwarmSync × List BlobData}
variable {req : BlobReq} {index : Nat}

/-- The bytes of a chunk of the blob. -/
def chunkOf (blob : Bytes) (index : Nat) : Bytes :=
  (blob.drop (index * chunkSize)).take chunkSize

/-- The record of a fetch is that of the blob; its root, if known, is that of the outboard
which the other side has. -/
structure Describes (store : BlobStore) (hash : NodeHash) (blob : Bytes) (info : BlobInfo) :
    Prop where
  named : info.hash = hash
  size : info.size = blob.length
  baoRoot : info.baoRoot = none ∨ info.baoRoot = some (BaoFormat.outboard blob).2 ∧
    store.outboards.get hash = some (BaoFormat.outboard blob).1

/-- A chunk that the blob has in full is received and marked. -/
theorem fetchChunk_served (hholds : store.Holds hash blob) (hextracts : Extracts blob)
    (hsize : blob.length ≤ u64Max) (hinfo : Describes store hash blob state.1.info)
    (hreq : req = ⟨hash, index * chunkSize, chunkSize⟩)
    (hwithin : index * chunkSize + chunkSize ≤ blob.length) :
    ∃ proof, fetchChunk store state req =
      ({ state.1 with
          activeFetches := state.1.activeFetches.erase index
          tracker := state.1.tracker.markReceived index },
        state.2 ++ [⟨hash, index * chunkSize, chunkOf blob index, proof⟩]) := by
  obtain ⟨proof, hanswer, hdecode⟩ :=
    getChunkWithProof_eq hholds hextracts (index * chunkSize) chunkSize
  rw [sliceFile_eq, if_pos ⟨hwithin.trans hsize, hwithin⟩] at hanswer
  have hindex : index * chunkSize / chunkSize = index := Nat.mul_div_cancel _ (by decide)
  have hlength : (chunkOf blob index).length = chunkSize := by
    rw [chunkOf, List.length_take, List.length_drop]
    omega
  have haccepts : (state.1.info.baoRoot.any fun baoRoot =>
      !BlobData.verify ⟨hash, index * chunkSize, chunkOf blob index, proof⟩ baoRoot) = false := by
    rcases hinfo.baoRoot with hroot | ⟨hroot, houtboard⟩
    · rw [hroot]
      rfl
    · have hdecoded := hdecode houtboard hwithin
      rw [hroot, Option.any_some, BlobData.verify]
      simp only [hlength, hdecoded]
      rw [Bool.not_eq_false', decide_eq_true_iff]
      rfl
  refine ⟨proof, ?_⟩
  subst hreq
  unfold fetchChunk
  rw [hanswer]
  simp only [Option.map_some]
  unfold SwarmSync.onChunkReceived
  simp only [hindex]
  rw [← chunkOf, haccepts]
  rfl

/-- Only whole chunks of the blob are received. -/
theorem fetchChunk_received (hholds : store.Holds hash blob) (hextracts : Extracts blob)
    (hreq : req = ⟨hash, index * chunkSize, chunkSize⟩) :
    ∀ chunk ∈ (fetchChunk store state req).2, chunk ∈ state.2 ∨
      chunk.offset = index * chunkSize ∧ chunk.data.length = chunkSize ∧
        index * chunkSize + chunkSize ≤ blob.length := by
  obtain ⟨proof, hanswer, -⟩ :=
    getChunkWithProof_eq hholds hextracts (index * chunkSize) chunkSize
  rw [sliceFile_eq] at hanswer
  subst hreq
  unfold fetchChunk
  rw [hanswer]
  intro chunk hmem
  by_cases hfits : index * chunkSize + chunkSize ≤ u64Max ∧
      index * chunkSize + chunkSize ≤ blob.length
  · rw [if_pos hfits] at hmem
    simp only [Option.map_some] at hmem
    split at hmem
    · rcases List.mem_append.mp hmem with hmem | hmem
      · exact .inl hmem
      · rw [List.mem_singleton.mp hmem]
        refine .inr ⟨rfl, ?_, hfits.2⟩
        simp only [List.length_take, List.length_drop]
        omega
    · exact .inl hmem
  · rw [if_neg hfits] at hmem
    exact .inl hmem

/-- The state of a download between polls: nothing is in flight, and what is marked is there. -/
structure Downloading (store : BlobStore) (hash : NodeHash) (blob : Bytes)
    (peer : PhysicalDevicePk) (state : SwarmSync × List BlobData) : Prop where
  describes : Describes store hash blob state.1.info
  totalSize : state.1.tracker.totalSize = blob.length
  mask : state.1.tracker.numChunks ≤ 8 * state.1.tracker.receivedMask.length
  seeders : state.1.seeders = [peer]
  marks : ∀ index, state.1.tracker.isReceived index = true →
    (index * chunkSize, chunkOf blob index) ∈ pieces state.2
  genuine : ∀ piece ∈ pieces state.2, piece.2 = (blob.drop piece.1).take piece.2.length

/-- The chunks that are still missing. -/
def missing (tracker : ChunkTracker) : Finset Nat :=
  (Finset.range tracker.numChunks).filter fun index => tracker.isReceived index = false

section

variable (hstate : Downloading store hash blob peer state)
include hstate

/-- The state while the answers to a poll come in. -/
theorem Downloading.fetchChunk (hholds : store.Holds hash blob) (hextracts : Extracts blob)
    (hsize : blob.length ≤ u64Max) (hasks : AsksFor state.1 req index)
    (hwithin : index * chunkSize + chunkSize ≤ blob.length) :
    Downloading store hash blob peer (fetchChunk store state req) ∧
      (∀ other, (MerkleTox.Fs.fetchChunk store state req).1.activeFetches.get other =
        if other = index then none else state.1.activeFetches.get other) ∧
      ∀ other, (MerkleTox.Fs.fetchChunk store state req).1.tracker.isReceived other =
        (state.1.tracker.isReceived other || decide (other = index)) := by
  have hreq : req = ⟨hash, index * chunkSize, chunkSize⟩ := hstate.describes.named ▸ hasks.2
  obtain ⟨proof, heq⟩ := fetchChunk_served hholds hextracts hsize hstate.describes hreq hwithin
  have hroom : index / 8 < state.1.tracker.receivedMask.length := by
    have hmask := hstate.mask
    have hbound := hasks.1
    omega
  have hmarked : ∀ other, (state.1.tracker.markReceived index).isReceived other =
      (state.1.tracker.isReceived other || decide (other = index)) := by
    intro other
    rw [ChunkTracker.isReceived_markReceived, decide_eq_true hroom, Bool.and_true]
  have hlength : (chunkOf blob index).length = chunkSize := by
    rw [chunkOf, List.length_take, List.length_drop]
    omega
  rw [heq]
  refine ⟨⟨hstate.describes, hstate.totalSize, ?_, hstate.seeders, fun other hmark => ?_,
    fun piece hmem => ?_⟩, fun other => ?_, hmarked⟩
  · have hmask := hstate.mask
    simp only [ChunkTracker.markReceived, List.length_modify]
    exact hmask
  · rw [pieces, List.map_append]
    rw [hmarked, Bool.or_eq_true, decide_eq_true_iff] at hmark
    rcases hmark with hmark | rfl
    · exact List.mem_append_left _ (hstate.marks other hmark)
    · exact List.mem_append_right _ List.mem_cons_self
  · rw [pieces, List.map_append] at hmem
    rcases List.mem_append.mp hmem with hmem | hmem
    · exact hstate.genuine piece hmem
    · rw [List.mem_singleton.mp hmem]
      simp only [hlength]
      rfl
  · simp only
    split
    next hother => rw [hother, AssocMap.get_erase_self]
    next hother => exact AssocMap.get_erase_of_ne _ hother

theorem Downloading.asksFor_iff :
    AsksFor state.1 req index ↔ index < (blob.length + chunkSize - 1) / chunkSize ∧
      req = ⟨hash, index * chunkSize, chunkSize⟩ := by
  rw [AsksFor, ChunkTracker.numChunks, hstate.totalSize, hstate.describes.named]

/-- The answers to all requests of a poll. -/
theorem Downloading.answers (hholds : store.Holds hash blob) (hextracts : Extracts blob)
    (hsize : blob.length ≤ u64Max) (hwhole : chunkSize ∣ blob.length) (reqs : List BlobReq)
    (hasks : ∀ req ∈ reqs, ∃ index, AsksFor state.1 req index) :
    Downloading store hash blob peer (reqs.foldl (MerkleTox.Fs.fetchChunk store) state) ∧
      (∀ index, (reqs.foldl (MerkleTox.Fs.fetchChunk store) state).1.activeFetches.get index ≠
        none → state.1.activeFetches.get index ≠ none ∧ ∀ req ∈ reqs,
          ¬ AsksFor state.1 req index) ∧
      ∀ index, (state.1.tracker.isReceived index = true ∨
        ∃ req ∈ reqs, AsksFor state.1 req index) →
          (reqs.foldl (MerkleTox.Fs.fetchChunk store) state).1.tracker.isReceived index = true := by
  -- By induction on the requests: answering one clears its fetch and marks its chunk, and asks
  -- nothing of the others.
  induction reqs generalizing state with
  | nil =>
      refine ⟨hstate, fun index hactive => ⟨hactive, fun _ hmem => absurd hmem List.not_mem_nil⟩,
        ?_⟩
      rintro index (hmark | ⟨req, hmem, -⟩)
      · exact hmark
      · exact absurd hmem List.not_mem_nil
  | cons req rest ih =>
      obtain ⟨asked, hasked⟩ := hasks req List.mem_cons_self
      obtain ⟨count, hcount⟩ := hwhole
      have hbound := (hstate.asksFor_iff.mp hasked).1
      have hwithin : asked * chunkSize + chunkSize ≤ blob.length := by
        rw [hcount] at hbound ⊢
        simp only [chunkSize] at hbound ⊢
        omega
      obtain ⟨hnext, hactive, hmarks⟩ :=
        hstate.fetchChunk hholds hextracts hsize hasked hwithin
      have hsame : ∀ other index, AsksFor (MerkleTox.Fs.fetchChunk store state req).1 other index ↔
          AsksFor state.1 other index := fun other index =>
        hnext.asksFor_iff.trans hstate.asksFor_iff.symm
      obtain ⟨hdone, hidle, hmarked⟩ := ih hnext fun other hmem => by
        obtain ⟨index, hindex⟩ := hasks other (List.mem_cons_of_mem _ hmem)
        exact ⟨index, (hsame other index).mpr hindex⟩
      refine ⟨hdone, fun index hin => ?_, fun index hor => ?_⟩
      · obtain ⟨hbefore, hothers⟩ := hidle index hin
        rw [hactive] at hbefore
        split at hbefore
        · exact absurd rfl hbefore
        next hne =>
          refine ⟨hbefore, fun other hmem hother => ?_⟩
          rcases List.mem_cons.mp hmem with rfl | hmem
          · have heq := congrArg BlobReq.offset (hasked.2.symm.trans hother.2)
            exact hne (Nat.eq_of_mul_eq_mul_right (by decide) heq).symm
          · exact hothers other hmem ((hsame other index).mpr hother)
      · refine hmarked index ?_
        rw [hmarks, Bool.or_eq_true, decide_eq_true_iff]
        rcases hor with hmark | ⟨other, hmem, hother⟩
        · exact .inl (.inl hmark)
        · rcases List.mem_cons.mp hmem with rfl | hmem
          · have heq := congrArg BlobReq.offset (hasked.2.symm.trans hother.2)
            exact .inl (.inr (Nat.eq_of_mul_eq_mul_right (by decide) heq).symm)
          · exact .inr ⟨other, hmem, (hsame other index).mpr hother⟩

/-- A poll whose requests are all answered leaves nothing in flight and, unless there was
nothing to do, fewer chunks missing. -/
theorem Downloading.fetchRound (hidle : ∀ index, state.1.activeFetches.get index = none)
    (hholds : store.Holds hash blob) (hextracts : Extracts blob) (hsize : blob.length ≤ u64Max)
    (hwhole : chunkSize ∣ blob.length) (now : Nat) :
    Downloading store hash blob peer (fetchRound store now state) ∧
      (∀ index, (MerkleTox.Fs.fetchRound store now state).1.activeFetches.get index = none) ∧
      ((missing state.1.tracker).card = 0 ∧
          (missing (MerkleTox.Fs.fetchRound store now state).1.tracker).card = 0 ∨
        (missing (MerkleTox.Fs.fetchRound store now state).1.tracker).card <
          (missing state.1.tracker).card) := by
  obtain ⟨polled, hpolled⟩ : ∃ polled, polled = state.1.clearStalledFetches now := ⟨_, rfl⟩
  have hcleared : Downloading store hash blob peer (polled, state.2) := by
    rw [hpolled]
    exact ⟨hstate.describes, hstate.totalSize, hstate.mask, hstate.seeders, hstate.marks,
      hstate.genuine⟩
  have hpolledIdle : ∀ index, polled.activeFetches.get index = none := by
    intro index
    rw [hpolled, SwarmSync.clearStalledFetches, AssocMap.get_retain, hidle]
    rfl
  have htracker : polled.tracker = state.1.tracker := by
    rw [hpolled]
    rfl
  -- The loop only asks: it leaves the blob, the tracker and the seeders as they are.
  obtain ⟨last, hlast⟩ : ∃ last, last =
      SwarmSync.requestLoop 4 now polled.info.numChunks ⟨0, polled, []⟩ := ⟨_, rfl⟩
  have hasks : Asks ⟨0, polled, []⟩ last := hlast ▸ asks_requestLoop 4 now _ _ (Nat.zero_le _)
  have hframe : SwarmSync.Tracks polled last.sync ∧ last.sync.seeders = polled.seeders :=
    hlast ▸ SwarmSync.requestLoop_frame 4 now polled.info.numChunks ⟨0, polled, []⟩
  have hnext : polled.nextRequests 4 now = (last.reqs, last.sync) := by
    rw [SwarmSync.nextRequests, ← hlast]
  clear hlast
  obtain ⟨hint, asking, reqs⟩ := last
  obtain ⟨⟨hinfo, hsameTracker⟩, hseeders⟩ := hframe
  simp only at hinfo hsameTracker hseeders hnext
  have hasking : Downloading store hash blob peer (asking, state.2) :=
    ⟨hinfo ▸ hcleared.describes, hsameTracker ▸ hcleared.totalSize,
      hsameTracker ▸ hcleared.mask, hseeders ▸ hcleared.seeders, hsameTracker ▸ hcleared.marks,
      hcleared.genuine⟩
  have hsame : ∀ req index, AsksFor asking req index ↔ AsksFor polled req index := by
    intro req index
    rw [AsksFor, AsksFor, hinfo, hsameTracker]
  have hround : MerkleTox.Fs.fetchRound store now state =
      (reqs.map Prod.snd).foldl (MerkleTox.Fs.fetchChunk store) (asking, state.2) := by
    rw [MerkleTox.Fs.fetchRound, ← hpolled, hnext]
  obtain ⟨hdone, hactive, hmarked⟩ := hasking.answers hholds hextracts hsize hwhole
    (reqs.map Prod.snd) fun req hmem => by
      obtain ⟨entry, hentry, rfl⟩ := List.mem_map.mp hmem
      obtain ⟨index, hindex⟩ := (hasks.chunks entry hentry).resolve_left List.not_mem_nil
      exact ⟨index, (hsame _ _).mpr hindex⟩
  rw [← hround] at hdone hactive hmarked
  have htotal : (MerkleTox.Fs.fetchRound store now state).1.tracker.numChunks =
      state.1.tracker.numChunks := by
    rw [ChunkTracker.numChunks, ChunkTracker.numChunks, hdone.totalSize, hstate.totalSize]
  have hkeeps : ∀ index, state.1.tracker.isReceived index = true →
      (MerkleTox.Fs.fetchRound store now state).1.tracker.isReceived index = true := by
    intro index hmark
    refine hmarked index (.inl ?_)
    rw [hsameTracker, htracker]
    exact hmark
  -- Marks are only added, so the missing chunks shrink; that they shrink properly is the last
  -- case, where some request covers a missing chunk.
  have hsubset : missing (MerkleTox.Fs.fetchRound store now state).1.tracker ⊆
      missing state.1.tracker := by
    intro index hmem
    rw [missing, Finset.mem_filter, Finset.mem_range] at hmem ⊢
    refine ⟨htotal ▸ hmem.1, ?_⟩
    by_contra hmark
    rw [hkeeps index (by simpa using hmark)] at hmem
    exact absurd hmem.2 (by decide)
  refine ⟨hdone, fun index => ?_, ?_⟩
  · by_contra hin
    obtain ⟨hfetched, hothers⟩ := hactive index hin
    have hcontains : asking.activeFetches.contains index = true := by
      rw [AssocMap.contains_eq]
      exact Option.isSome_iff_ne_none.mpr hfetched
    -- A fetch that is active afterwards was asked for in this round, and every request of the
    -- round was answered.
    rcases hasks.fetches index hcontains with hbefore | ⟨entry, hentry, hindex⟩
    · rw [AssocMap.contains_eq, hpolledIdle] at hbefore
      cases hbefore
    · exact hothers entry.2 (List.mem_map_of_mem hentry) ((hsame _ _).mpr hindex)
  · rcases Finset.eq_empty_or_nonempty (missing state.1.tracker) with hempty | ⟨index, hindex⟩
    · rw [hempty] at hsubset
      rw [hempty, Finset.subset_empty.mp hsubset]
      exact .inl ⟨rfl, rfl⟩
    · refine .inr (Finset.card_lt_card (Finset.ssubset_iff_of_subset hsubset |>.mpr ?_))
      rw [missing, Finset.mem_filter, Finset.mem_range, ← htracker] at hindex
      have hcount : polled.info.numChunks = polled.tracker.numChunks := by
        rw [BlobInfo.numChunks, ChunkTracker.numChunks, hcleared.totalSize,
          hcleared.describes.size]
      obtain ⟨entry, hentry, first, hfirst, hmissing⟩ :=
        asks_missing now hcleared.seeders hpolledIdle hcount hindex.1 hindex.2
      rw [hnext] at hentry
      refine ⟨first, ?_, fun hmem => ?_⟩
      · rw [missing, Finset.mem_filter, Finset.mem_range, ← htracker]
        exact ⟨hfirst.1, hmissing⟩
      · have hreceived := hmarked first
          (.inr ⟨entry.2, List.mem_map_of_mem hentry, (hsame _ _).mpr hfirst⟩)
        rw [missing, Finset.mem_filter, hreceived] at hmem
        exact absurd hmem.2 (by decide)

end

/-! ## The whole download -/

theorem downloading_new (hinfo : Describes store hash blob info) :
    Downloading store hash blob peer ((SwarmSync.new info).addSeeder peer, []) where
  describes := hinfo
  totalSize := hinfo.size
  mask := by
    simp only [SwarmSync.addSeeder, SwarmSync.new, ChunkTracker.new, ChunkTracker.numChunks,
      List.length_replicate]
    omega
  seeders := rfl
  marks index hmark :=
    absurd (hmark.symm.trans (ChunkTracker.isReceived_new info.hash info.size index)) (by decide)
  genuine _ hmem := absurd hmem List.not_mem_nil

variable (peer now) in
/-- Every poll takes a chunk off what is missing. -/
theorem downloading_download (hinfo : Describes store hash blob info)
    (hholds : store.Holds hash blob) (hextracts : Extracts blob)
    (hsize : blob.length ≤ u64Max) (hwhole : chunkSize ∣ blob.length) (rounds : Nat) :
    Downloading store hash blob peer (download store info peer now rounds) ∧
      (∀ index, (download store info peer now rounds).1.activeFetches.get index = none) ∧
      (missing (download store info peer now rounds).1.tracker).card ≤
        (blob.length + chunkSize - 1) / chunkSize - rounds := by
  induction rounds with
  | zero =>
      refine ⟨downloading_new hinfo, fun _ => rfl, ?_⟩
      refine (Finset.card_filter_le _ _).trans ?_
      rw [Finset.card_range, ChunkTracker.numChunks]
      exact Nat.le_of_eq (by rw [← hinfo.size]; rfl)
  | succ rounds ih =>
      obtain ⟨hstate, hidle, hcard⟩ := ih
      obtain ⟨hnext, hdone, hfewer⟩ :=
        hstate.fetchRound hidle hholds hextracts hsize hwhole now
      refine ⟨hnext, hdone, ?_⟩
      rw [download]
      omega

/-- When no chunk is missing, the pieces make up the blob. -/
theorem Downloading.covered (hstate : Downloading store hash blob peer state)
    (hwhole : chunkSize ∣ blob.length) (hnone : (missing state.1.tracker).card = 0) :
    Covered blob.length (pieces state.2) := by
  intro position hposition
  have hbound : position / chunkSize < state.1.tracker.numChunks := by
    rw [ChunkTracker.numChunks, hstate.totalSize]
    simp only [chunkSize]
    omega
  have hmark : state.1.tracker.isReceived (position / chunkSize) = true := by
    by_contra hmark
    have hmem : position / chunkSize ∈ missing state.1.tracker := by
      rw [missing, Finset.mem_filter, Finset.mem_range]
      exact ⟨hbound, by simpa using hmark⟩
    rw [Finset.card_eq_zero.mp hnone] at hmem
    exact absurd hmem (Finset.notMem_empty _)
  refine ⟨_, hstate.marks _ hmark, ?_⟩
  obtain ⟨count, hcount⟩ := hwhole
  constructor
  · exact Nat.div_mul_le_self position chunkSize
  · simp only [chunkOf, List.length_take, List.length_drop, chunkSize] at hcount hposition ⊢
    omega

/-- A piece that was received is a whole chunk within the blob. -/
def WholePieces (blob : Bytes) (received : List BlobData) : Prop :=
  ∀ chunk ∈ received, chunk.offset % chunkSize = 0 ∧ chunk.data.length = chunkSize ∧
    chunk.offset + chunkSize ≤ blob.length

theorem fetchChunk_info (store : BlobStore) (state : SwarmSync × List BlobData) (req : BlobReq) :
    (fetchChunk store state req).1.info = state.1.info := by
  unfold fetchChunk
  split
  · unfold SwarmSync.onChunkReceived
    simp only
    split
    · rfl
    · rfl
  · rfl

theorem wholePieces_answers (hholds : store.Holds hash blob) (hextracts : Extracts blob)
    (reqs : List BlobReq)
    (hreqs : ∀ req ∈ reqs, ∃ index, req = ⟨hash, index * chunkSize, chunkSize⟩)
    (hpieces : WholePieces blob state.2) :
    WholePieces blob (reqs.foldl (fetchChunk store) state).2 ∧
      (reqs.foldl (fetchChunk store) state).1.info = state.1.info := by
  induction reqs generalizing state with
  | nil => exact ⟨hpieces, rfl⟩
  | cons req rest ih =>
      obtain ⟨index, hreq⟩ := hreqs req List.mem_cons_self
      have hnext : WholePieces blob (fetchChunk store state req).2 := by
        intro chunk hmem
        rcases fetchChunk_received hholds hextracts hreq chunk hmem with
          hmem | ⟨hoffset, hlength, hwithin⟩
        · exact hpieces chunk hmem
        · rw [hoffset]
          exact ⟨Nat.mul_mod_left index chunkSize, hlength, hwithin⟩
      obtain ⟨hrest, hinfo⟩ :=
        ih (fun other hmem => hreqs other (List.mem_cons_of_mem _ hmem)) hnext
      exact ⟨hrest, hinfo.trans (fetchChunk_info store state req)⟩

variable (peer now) in
theorem wholePieces_download (hinfo : Describes store hash blob info)
    (hholds : store.Holds hash blob) (hextracts : Extracts blob) (rounds : Nat) :
    WholePieces blob (download store info peer now rounds).2 ∧
      (download store info peer now rounds).1.info.hash = hash := by
  induction rounds with
  | zero => exact ⟨fun _ hmem => absurd hmem List.not_mem_nil, hinfo.named⟩
  | succ rounds ih =>
      obtain ⟨hpieces, hnamed⟩ := ih
      rw [download, fetchRound, SwarmSync.nextRequests]
      obtain ⟨polled, hpolled⟩ : ∃ polled, polled =
          (download store info peer now rounds).1.clearStalledFetches now := ⟨_, rfl⟩
      have hpolledInfo : polled.info.hash = hash := by
        rw [hpolled]
        exact hnamed
      rw [← hpolled]
      obtain ⟨last, hlast⟩ : ∃ last, last =
          SwarmSync.requestLoop 4 now polled.info.numChunks ⟨0, polled, []⟩ := ⟨_, rfl⟩
      have hasks : Asks ⟨0, polled, []⟩ last :=
        hlast ▸ asks_requestLoop 4 now _ _ (Nat.zero_le _)
      have hframe := (SwarmSync.requestLoop_frame 4 now polled.info.numChunks ⟨0, polled, []⟩).1
      rw [← hlast] at hframe ⊢
      have hreqs : ∀ req ∈ last.reqs.map Prod.snd, ∃ index,
          req = ⟨hash, index * chunkSize, chunkSize⟩ := by
        intro req hmem
        obtain ⟨entry, hentry, rfl⟩ := List.mem_map.mp hmem
        obtain ⟨index, -, hreq⟩ := (hasks.chunks entry hentry).resolve_left List.not_mem_nil
        rw [hpolledInfo] at hreq
        exact ⟨index, hreq⟩
      have hbefore : WholePieces blob (last.sync, (download store info peer now rounds).2).2 :=
        hpieces
      obtain ⟨hdone, hsame⟩ := wholePieces_answers hholds hextracts _ hreqs hbefore
      refine ⟨hdone, ?_⟩
      rw [hsame, hframe.info]
      exact hpolledInfo

omit [BaoSlices] in
/-- Whole chunks cover only blobs that consist of whole chunks. -/
theorem WholePieces.dvd {received : List BlobData} (hpieces : WholePieces blob received)
    (hcovered : Covered blob.length (pieces received)) : chunkSize ∣ blob.length := by
  rcases Nat.eq_zero_or_pos blob.length with hempty | hpos
  · rw [hempty]
    exact dvd_zero _
  · obtain ⟨piece, hmem, hstart, hstop⟩ := hcovered (blob.length - 1) (by omega)
    obtain ⟨chunk, hchunk, rfl⟩ := List.mem_map.mp hmem
    obtain ⟨haligned, hlength, hwithin⟩ := hpieces chunk hchunk
    simp only [hlength] at hstop
    have hend : blob.length = chunk.offset + chunkSize := by omega
    rw [hend]
    exact Nat.dvd_add (Nat.dvd_of_mod_eq_zero haligned) (dvd_refl _)

end Rounds

/-- A side that holds a blob answers exactly the requests that end within it. What a side that
fetches the blob asks for brings all of its bytes exactly when the last chunk is whole. -/
theorem serving_iff [BaoSlices] {store : BlobStore} {hash : NodeHash} {blob : Bytes}
    (hholds : store.Holds hash blob) (hextracts : Extracts blob)
    (hsize : blob.length ≤ u64Max) :
    (∀ offset length, store.Serves hash blob offset length ↔ offset + length ≤ blob.length) ∧
      ∀ info peer now, Describes store hash blob info →
        ((∃ rounds, Covered blob.length (pieces (download store info peer now rounds).2) ∧
            ∀ piece ∈ pieces (download store info peer now rounds).2,
              piece.2 = (blob.drop piece.1).take piece.2.length) ↔
          chunkSize ∣ blob.length) := by
  refine ⟨serves_iff hholds hextracts hsize, fun info peer now hinfo => ⟨?_, fun hwhole => ?_⟩⟩
  · rintro ⟨rounds, hcovered, -⟩
    exact (wholePieces_download peer now hinfo hholds hextracts rounds).1.dvd hcovered
  · obtain ⟨hstate, -, hcard⟩ := downloading_download peer now hinfo hholds
      hextracts hsize hwhole ((blob.length + chunkSize - 1) / chunkSize)
    refine ⟨_, hstate.covered hwhole ?_, hstate.genuine⟩
    omega

namespace Swarm

/-! ## A blob of three bytes -/

/-- The blob with its outboard. -/
def taleStore : BlobStore where
  blobs := AssocMap.empty.insert taleHash tale
  infos := .empty
  outboards := AssocMap.empty.insert taleHash tale

def taleInfo : BlobInfo := ⟨taleHash, 3, some taleHash.bytes, .pending, none, none⟩

theorem holds_tale : taleStore.Holds taleHash tale where
  file := AssocMap.get_insert_self _ _ _
  outboard outboard hget := by
    rw [taleStore, AssocMap.get_insert_self] at hget
    exact (Option.some.inj hget).symm

theorem extracts_tale : Extracts tale := by
  intro offset length
  refine ⟨tale, rfl, fun _ => if_pos ⟨rfl, rfl⟩⟩

theorem describes_tale : Describes taleStore taleHash tale taleInfo where
  named := rfl
  size := rfl
  baoRoot := .inr ⟨rfl, AssocMap.get_insert_self _ _ _⟩

theorem serving_tale :
    (∀ offset length, taleStore.Serves taleHash tale offset length ↔
        offset + length ≤ tale.length) ∧
      ∀ info peer now, Describes taleStore taleHash tale info →
        ((∃ rounds, Covered tale.length (pieces (download taleStore info peer now rounds).2) ∧
            ∀ piece ∈ pieces (download taleStore info peer now rounds).2,
              piece.2 = (tale.drop piece.1).take piece.2.length) ↔
          chunkSize ∣ tale.length) :=
  serving_iff holds_tale extracts_tale (by decide)

/-- The request for the only chunk ends in a panic, and no poll brings a byte. -/
theorem tale_not_served : ¬ taleStore.Serves taleHash tale 0 chunkSize ∧
    ∀ rounds, ¬ Covered tale.length (pieces (download taleStore taleInfo ⟨6⟩ 0 rounds).2) := by
  constructor
  · rw [serves_iff holds_tale extracts_tale (by decide)]
    decide
  · intro rounds hcovered
    have hwhole := (wholePieces_download ⟨6⟩ 0 describes_tale holds_tale extracts_tale
      rounds).1.dvd hcovered
    exact absurd hwhole (by decide)

end Swarm

end MerkleTox.Fs
