import MerkleTox.Core.Reference
import MerkleTox.Fs.Availability
import MerkleTox.Fs.Swarm

/-! # What the engine calls an available blob

A sync takes the size and the root of a blob from a peer, and the bits of its tracker stand
for whole chunks. If the record is the true one and the slices that verify fill their chunks,
then a blob that is called available was written in full.
-/

namespace MerkleTox.Fs

open Library Proto MerkleTox.Core
open BlobStore (Covers Covered)

namespace BlobSyncs

/-- The offsets and the data written to a blob. -/
def chunkWrites (nodeHash : NodeHash) (effects : List BlobEffect) : List (Nat × Bytes) :=
  effects.filterMap fun effect =>
    match effect with
    | .writeChunk other offset data _ => if other = nodeHash then some (offset, data) else none
    | _ => none

theorem chunkWrites_append (nodeHash : NodeHash) (effects more : List BlobEffect) :
    chunkWrites nodeHash (effects ++ more) =
      chunkWrites nodeHash effects ++ chunkWrites nodeHash more :=
  List.filterMap_append

variable [BaoSlices]

/-- The root in the record is the hash of the blob, and it and the size are those of the
content. -/
structure TrueRecord (content : NodeHash → Bytes) (info : BlobInfo) : Prop where
  baoRoot : info.baoRoot = some info.hash.bytes
  size : info.size = (content info.hash).length
  root : (BaoFormat.outboard (content info.hash)).2 = info.hash.bytes

/-- The data starts at a multiple of the chunk size and goes on to the next or to the end. -/
def FillsChunk (size : Nat) (chunk : BlobData) : Prop :=
  chunk.offset % chunkSize = 0 ∧ min chunkSize (size - chunk.offset) ≤ chunk.data.length

/-- A sync is started with a true record, and slices that verify under the hash of the blob
fill their chunks and find the blob store in place. -/
def Genuine (content : NodeHash → Bytes) (state : BlobSyncs × List BlobEffect) :
    BlobEvent → Prop
  | .blobAvail _ info hasBlob => state.1.get info.hash = none →
      (hasBlob.any fun has => !has info.hash) = true → TrueRecord content info
  | .historyExport info => TrueRecord content info
  | .blobData _ chunk hasBlob => ∀ sync, state.1.get chunk.hash = some sync →
      chunk.verify chunk.hash.bytes = true →
        hasBlob.isSome = true ∧ FillsChunk sync.info.size chunk
  | .poll _ => True

/-- A sync with a true record whose marked chunks are written. -/
structure Filled (content : NodeHash → Bytes) (effects : List BlobEffect) (nodeHash : NodeHash)
    (sync : SwarmSync) : Prop where
  hash : sync.info.hash = nodeHash
  record : TrueRecord content sync.info
  totalSize : sync.tracker.totalSize = sync.info.size
  marks : ∀ chunkIndex, sync.tracker.isReceived chunkIndex = true →
    ∀ position < sync.info.size, position / chunkSize = chunkIndex →
      ∃ write ∈ chunkWrites nodeHash effects, Covers write position

/-- What is written was verified, and what is called available was written in full. -/
structure Sound (content : NodeHash → Bytes) (state : BlobSyncs × List BlobEffect) : Prop where
  syncs : ∀ nodeHash sync, state.1.get nodeHash = some sync →
    Filled content state.2 nodeHash sync
  written : ∀ nodeHash offset data proof,
    BlobEffect.writeChunk nodeHash offset data proof ∈ state.2 →
      BlobData.verify ⟨nodeHash, offset, data, proof⟩ nodeHash.bytes = true
  available : ∀ nodeHash, BlobEffect.blobAvailable nodeHash ∈ state.2 →
    (BaoFormat.outboard (content nodeHash)).2 = nodeHash.bytes ∧
      Covered (content nodeHash).length (chunkWrites nodeHash state.2)

variable {content : NodeHash → Bytes} {effects more : List BlobEffect} {nodeHash : NodeHash}
variable {sync other : SwarmSync} {info : BlobInfo} {syncs : BlobSyncs}

/-! ## Syncs -/

theorem Filled.mono (hfilled : Filled content effects nodeHash sync) :
    Filled content (effects ++ more) nodeHash sync where
  hash := hfilled.hash
  record := hfilled.record
  totalSize := hfilled.totalSize
  marks chunkIndex hmark position hposition hchunk := by
    obtain ⟨write, hmem, hcovers⟩ := hfilled.marks chunkIndex hmark position hposition hchunk
    refine ⟨write, ?_, hcovers⟩
    rw [chunkWrites_append]
    exact List.mem_append_left _ hmem

theorem Filled.tracks (hfilled : Filled content effects nodeHash sync)
    (htracks : SwarmSync.Tracks sync other) : Filled content effects nodeHash other where
  hash := htracks.info ▸ hfilled.hash
  record := htracks.info ▸ hfilled.record
  totalSize := htracks.tracker ▸ htracks.info ▸ hfilled.totalSize
  marks := htracks.tracker ▸ htracks.info ▸ hfilled.marks

theorem filled_new (hrecord : TrueRecord content info) :
    Filled content effects info.hash (.new info) where
  hash := rfl
  record := hrecord
  totalSize := rfl
  marks chunkIndex hmark := by
    have hnone := ChunkTracker.isReceived_new info.hash info.size chunkIndex
    exact absurd (hmark.symm.trans hnone) (by decide)

variable {chunk : BlobData} {hasBlob : Option (NodeHash → Bool)} {senderPk : PhysicalDevicePk}

/-- A slice that is written fills the chunk that it marks. -/
theorem Filled.markReceived (hfilled : Filled content effects nodeHash sync)
    (hhash : chunk.hash = nodeHash) (hfills : FillsChunk sync.info.size chunk)
    (hother : other.info = sync.info)
    (htracker : other.tracker = sync.tracker.markReceived (chunk.offset / chunkSize)) :
    Filled content (effects ++ [.writeChunk chunk.hash chunk.offset chunk.data chunk.proof])
      nodeHash other where
  hash := hother ▸ hfilled.hash
  record := hother ▸ hfilled.record
  totalSize := by
    rw [htracker, hother]
    exact hfilled.totalSize
  marks chunkIndex hmark position hposition hchunk := by
    rw [htracker, ChunkTracker.isReceived_markReceived, Bool.or_eq_true,
      Bool.and_eq_true, decide_eq_true_iff] at hmark
    rw [hother] at hposition
    rw [chunkWrites_append]
    rcases hmark with hmark | ⟨hmarked, -⟩
    · obtain ⟨write, hmem, hcovers⟩ := hfilled.marks chunkIndex hmark position hposition hchunk
      exact ⟨write, List.mem_append_left _ hmem, hcovers⟩
    · refine ⟨(chunk.offset, chunk.data), List.mem_append_right _ ?_, ?_⟩
      · simp [chunkWrites, hhash]
      · obtain ⟨haligned, hlength⟩ := hfills
        rw [hmarked] at hchunk
        have hstart : chunk.offset = chunkSize * (chunk.offset / chunkSize) := by
          have hdiv := Nat.div_add_mod chunk.offset chunkSize
          omega
        have hstop := Nat.div_add_mod position chunkSize
        have hrest := Nat.mod_lt position (show 0 < chunkSize by decide)
        rw [hchunk] at hstop
        constructor
        · simp only
          omega
        · simp only
          rcases Nat.le_total chunkSize (sync.info.size - chunk.offset) with hle | hle
          · rw [Nat.min_eq_left hle] at hlength
            omega
          · rw [Nat.min_eq_right hle] at hlength
            omega

/-- When all chunks are marked, every position is written. -/
theorem Filled.covered (hfilled : Filled content effects nodeHash sync)
    (hcomplete : sync.tracker.isComplete = true) :
    Covered (content nodeHash).length (chunkWrites nodeHash effects) := by
  intro position hposition
  have hsize : sync.info.size = (content nodeHash).length := hfilled.hash ▸ hfilled.record.size
  have hchunk : position / chunkSize < sync.tracker.numChunks := by
    rw [ChunkTracker.numChunks, hfilled.totalSize, hsize]
    simp only [chunkSize]
    omega
  exact hfilled.marks _ (ChunkTracker.isComplete_iff.mp hcomplete _ hchunk) position
    (hsize ▸ hposition) rfl

/-! ## Events -/

variable {state : BlobSyncs × List BlobEffect}

section

variable (hsound : Sound content state)
include hsound

/-- Effects that write no chunk and call nothing available change nothing about what is kept. -/
theorem Sound.quiet (hsyncs : ∀ nodeHash sync, syncs.get nodeHash = some sync →
      Filled content state.2 nodeHash sync)
    (hmore : ∀ effect ∈ more, ∃ info, effect = .writeBlobInfo info) :
    Sound content (syncs, state.2 ++ more) where
  syncs nodeHash sync hget := (hsyncs nodeHash sync hget).mono
  written nodeHash offset data proof hmem := by
    rcases List.mem_append.mp hmem with hmem | hmem
    · exact hsound.written nodeHash offset data proof hmem
    · obtain ⟨info, heq⟩ := hmore _ hmem
      cases heq
  available nodeHash hmem := by
    rcases List.mem_append.mp hmem with hmem | hmem
    · obtain ⟨hroot, hcovered⟩ := hsound.available nodeHash hmem
      refine ⟨hroot, fun position hposition => ?_⟩
      obtain ⟨write, hwrite, hcovers⟩ := hcovered position hposition
      refine ⟨write, ?_, hcovers⟩
      rw [chunkWrites_append]
      exact List.mem_append_left _ hwrite
    · obtain ⟨info, heq⟩ := hmore _ hmem
      cases heq

theorem Sound.silent (hsyncs : ∀ nodeHash sync, syncs.get nodeHash = some sync →
      Filled content state.2 nodeHash sync) : Sound content (syncs, state.2) :=
  ⟨hsyncs, hsound.written, hsound.available⟩

/-- A write of a slice that verifies. -/
theorem Sound.write (hverify : chunk.verify chunk.hash.bytes = true)
    (hsyncs : ∀ nodeHash sync, syncs.get nodeHash = some sync → Filled content
      (state.2 ++ [.writeChunk chunk.hash chunk.offset chunk.data chunk.proof]) nodeHash sync) :
    Sound content (syncs,
      state.2 ++ [.writeChunk chunk.hash chunk.offset chunk.data chunk.proof]) where
  syncs := hsyncs
  written nodeHash offset data proof hmem := by
    rcases List.mem_append.mp hmem with hmem | hmem
    · exact hsound.written nodeHash offset data proof hmem
    · cases List.mem_singleton.mp hmem
      exact hverify
  available nodeHash hmem := by
    rcases List.mem_append.mp hmem with hmem | hmem
    · obtain ⟨hroot, hcovered⟩ := hsound.available nodeHash hmem
      refine ⟨hroot, fun position hposition => ?_⟩
      obtain ⟨write, hwrite, hcovers⟩ := hcovered position hposition
      refine ⟨write, ?_, hcovers⟩
      rw [chunkWrites_append]
      exact List.mem_append_left _ hwrite
    · cases List.mem_singleton.mp hmem

/-- A blob that is written in full is called available. -/
theorem Sound.complete (hroot : (BaoFormat.outboard (content nodeHash)).2 = nodeHash.bytes)
    (hcovered : Covered (content nodeHash).length (chunkWrites nodeHash state.2)) (info : BlobInfo)
    :
    Sound content (state.1, state.2 ++ [.writeBlobInfo info, .blobAvailable nodeHash]) where
  syncs other sync hget := (hsound.syncs other sync hget).mono
  written other offset data proof hmem := by
    rcases List.mem_append.mp hmem with hmem | hmem
    · exact hsound.written other offset data proof hmem
    · simp at hmem
  available other hmem := by
    have hwrites : chunkWrites other (state.2 ++ [.writeBlobInfo info, .blobAvailable nodeHash]) =
        chunkWrites other state.2 := by
      rw [chunkWrites_append]
      exact List.append_nil _
    rw [hwrites]
    rcases List.mem_append.mp hmem with hmem | hmem
    · exact hsound.available other hmem
    · have heq : other = nodeHash := by simpa using hmem
      rw [heq]
      exact ⟨hroot, hcovered⟩

/-- A sync that is replaced by one with the same record and tracker, or one that is new. -/
theorem filled_insert (hfilled : Filled content state.2 nodeHash sync) :
    ∀ other found, (state.1.insert nodeHash sync).get other = some found →
      Filled content state.2 other found :=
  AssocMap.forall_insert hsound.syncs hfilled

theorem sound_blobAvail (hgenuine : Genuine content state (.blobAvail senderPk info hasBlob)) :
    Sound content (step state (.blobAvail senderPk info hasBlob)) := by
  simp only [step]
  unfold onBlobAvail
  split
  next sync hget =>
    have hfilled := hsound.syncs _ sync hget
    split
    · exact hsound.quiet (filled_insert hsound (hfilled.tracks ⟨rfl, rfl⟩))
        fun _ hmem => absurd hmem List.not_mem_nil
    · exact hsound.quiet (filled_insert hsound (hfilled.tracks ⟨rfl, rfl⟩))
        fun _ hmem => absurd hmem List.not_mem_nil
  next hget =>
    split
    next hlacks =>
      have hrecord := hgenuine hget hlacks
      have hpending : TrueRecord content { info with status := .pending } :=
        ⟨hrecord.baoRoot, hrecord.size, hrecord.root⟩
      refine hsound.quiet (filled_insert hsound ((filled_new hpending).tracks ⟨rfl, rfl⟩))
        fun effect hmem => ⟨_, List.mem_singleton.mp hmem⟩
    next => exact hsound.quiet hsound.syncs fun _ hmem => absurd hmem List.not_mem_nil

theorem sound_blobData (hgenuine : Genuine content state (.blobData senderPk chunk hasBlob)) :
    Sound content (step state (.blobData senderPk chunk hasBlob)) := by
  simp only [step]
  unfold onBlobData
  split
  next => exact hsound.quiet hsound.syncs fun _ hmem => absurd hmem List.not_mem_nil
  next sync hget =>
    have hfilled := hsound.syncs _ sync hget
    have hroot : sync.info.baoRoot = some chunk.hash.bytes := hfilled.hash ▸ hfilled.record.baoRoot
    unfold SwarmSync.onChunkReceived
    rw [hroot, Option.any_some]
    cases hverify : chunk.verify chunk.hash.bytes with
    | false =>
        exact hsound.quiet (filled_insert hsound (hfilled.tracks ⟨rfl, rfl⟩))
          fun _ hmem => absurd hmem List.not_mem_nil
    | true =>
        -- Only a chunk that verifies against the root changes anything, and then both the write
        -- and the mark are of that chunk.
        obtain ⟨hstore, hfills⟩ := hgenuine sync hget hverify
        simp only [Bool.not_true, Bool.false_eq_true, if_false, hstore, Bool.and_true, if_true]
        obtain ⟨received, hreceived⟩ : ∃ received, received = { sync with
            activeFetches := sync.activeFetches.erase (chunk.offset / chunkSize)
            tracker := sync.tracker.markReceived (chunk.offset / chunkSize) } := ⟨_, rfl⟩
        have hmarked : Filled content
            (state.2 ++ [.writeChunk chunk.hash chunk.offset chunk.data chunk.proof])
            chunk.hash received :=
          hfilled.markReceived rfl hfills (by rw [hreceived]) (by rw [hreceived])
        have hothers : ∀ other found, other ≠ chunk.hash → state.1.get other = some found →
            Filled content
              (state.2 ++ [.writeChunk chunk.hash chunk.offset chunk.data chunk.proof])
              other found := fun other found _ hother => (hsound.syncs other found hother).mono
        subst hreceived
        split
        next hcomplete =>
          have hwritten : Sound content (state.1.erase chunk.hash, state.2 ++
              [.writeChunk chunk.hash chunk.offset chunk.data chunk.proof]) :=
            hsound.write hverify fun other found hother => by
              obtain ⟨hne, hother⟩ := AssocMap.get_of_erase hother
              exact hothers other found hne hother
          have hroot := hmarked.record.root
          rw [hmarked.hash] at hroot
          have hdone := hwritten.complete hroot (hmarked.covered hcomplete)
            { sync.info with status := .available }
          rw [List.append_assoc] at hdone
          exact hdone
        next =>
          refine hsound.write hverify fun other found hother => ?_
          rw [AssocMap.get_insert] at hother
          split at hother
          next heq =>
            cases hother
            rw [heq]
            exact hmarked
          next hne => exact hothers other found hne hother

theorem sound_step {event : BlobEvent} (hgenuine : Genuine content state event) :
    Sound content (step state event) := by
  cases event with
  | blobAvail senderPk info hasBlob => exact sound_blobAvail hsound hgenuine
  | blobData senderPk chunk hasBlob => exact sound_blobData hsound hgenuine
  | historyExport info =>
      have hnew : TrueRecord content { info with status := .pending, receivedMask := none } :=
        ⟨hgenuine.baoRoot, hgenuine.size, hgenuine.root⟩
      exact hsound.silent (filled_insert hsound (filled_new hnew))
  | poll now =>
      refine hsound.silent fun nodeHash other hget => ?_
      rw [onPoll, AssocMap.get_mapValues] at hget
      obtain ⟨sync, hsync, rfl⟩ := Option.map_eq_some_iff.mp hget
      have hcleared : SwarmSync.Tracks sync (sync.clearStalledFetches now) := ⟨rfl, rfl⟩
      exact (hsound.syncs nodeHash sync hsync).tracks
        (hcleared.trans (SwarmSync.tracks_nextRequests _ 4 now))

end

/-- The engine before any blob message. -/
def idle : BlobSyncs × List BlobEffect := (AssocMap.empty, [])

theorem sound_run {events : List BlobEvent}
    (hgenuine : RunMeets step (Genuine content) idle events) :
    Sound content (runFrom step idle events) := by
  refine hgenuine.invariant (Sound content) (fun _ _ hsound => sound_step hsound) ?_
  exact ⟨fun _ _ hget => (nomatch hget), fun _ _ _ _ hmem => absurd hmem List.not_mem_nil,
    fun _ hmem => absurd hmem List.not_mem_nil⟩

end BlobSyncs

open BlobSyncs in
/-- While syncs are started with true records and slices that verify fill their chunks, every
slice that is written was verified and is a part of the content, a marked chunk is written, and
a blob that is called available is written in full, its content being the one with this hash
as its root. -/
theorem available_integrity [BaoSlices] (content : NodeHash → Bytes) (events : List BlobEvent)
    (hsound : ∀ nodeHash proof offset length decoded,
      BaoSlices.decode proof (NodeHash.bytes nodeHash) offset length = some decoded →
        decoded = ((content nodeHash).drop offset).take length)
    (hgenuine : RunMeets step (Genuine content) idle events) :
    (∀ nodeHash offset data proof,
      BlobEffect.writeChunk nodeHash offset data proof ∈ (runFrom step idle events).2 →
        BlobData.verify ⟨nodeHash, offset, data, proof⟩ nodeHash.bytes = true ∧
          data = ((content nodeHash).drop offset).take data.length) ∧
      (∀ nodeHash sync, (runFrom step idle events).1.get nodeHash = some sync →
        ∀ position < sync.info.size, sync.tracker.isReceived (position / chunkSize) = true →
          ∃ write ∈ chunkWrites nodeHash (runFrom step idle events).2, Covers write position) ∧
      ∀ nodeHash, BlobEffect.blobAvailable nodeHash ∈ (runFrom step idle events).2 →
        (BaoFormat.outboard (content nodeHash)).2 = nodeHash.bytes ∧
          Covered (content nodeHash).length
            (chunkWrites nodeHash (runFrom step idle events).2) := by
  have hrun := sound_run hgenuine
  refine ⟨fun nodeHash offset data proof hmem => ?_, fun nodeHash sync hget position hposition
    hmark => (hrun.syncs nodeHash sync hget).marks _ hmark position hposition rfl,
    hrun.available⟩
  have hverify := hrun.written nodeHash offset data proof hmem
  refine ⟨hverify, ?_⟩
  unfold BlobData.verify at hverify
  split at hverify
  next decoded hdecode =>
    rw [decide_eq_true_iff] at hverify
    exact hverify.symm.trans (hsound nodeHash proof offset data.length decoded hdecode)
  next => cases hverify

namespace Swarm

/-! ## A short blob -/

def tale : Bytes := [1, 2, 3]

/-- Slices that carry the whole file; one file is known by its root. -/
instance referenceSlices : BaoSlices where
  outboard data := (data, BitVec.ofNat 256 (Core.Reference.digest (data.map UInt8.toNat)))
  extract data _ _ _ := .ok data
  decode slice root offset length :=
    if slice = tale ∧ root = BitVec.ofNat 256 (Core.Reference.digest [1, 2, 3]) then
      some ((tale.drop offset).take length)
    else none

def taleHash : NodeHash := ⟨BitVec.ofNat 256 (Core.Reference.digest [1, 2, 3])⟩

/-- The content of each blob. -/
def contents (nodeHash : NodeHash) : Bytes := if nodeHash = taleHash then tale else []

/-- The blob is offered with its root and sent in one slice. -/
def honest : List BlobEvent :=
  [.blobAvail ⟨6⟩ ⟨taleHash, 3, some taleHash.bytes, .available, none, none⟩
      (some fun _ => false),
    .blobData ⟨6⟩ ⟨taleHash, 0, tale, tale⟩ (some fun _ => false)]

open BlobSyncs in
theorem available_integrity_honest :
    (∀ nodeHash offset data proof,
      BlobEffect.writeChunk nodeHash offset data proof ∈ (runFrom step idle honest).2 →
        BlobData.verify ⟨nodeHash, offset, data, proof⟩ nodeHash.bytes = true ∧
          data = ((contents nodeHash).drop offset).take data.length) ∧
      (∀ nodeHash sync, (runFrom step idle honest).1.get nodeHash = some sync →
        ∀ position < sync.info.size, sync.tracker.isReceived (position / chunkSize) = true →
          ∃ write ∈ chunkWrites nodeHash (runFrom step idle honest).2, Covers write position) ∧
      ∀ nodeHash, BlobEffect.blobAvailable nodeHash ∈ (runFrom step idle honest).2 →
        (BaoFormat.outboard (contents nodeHash)).2 = nodeHash.bytes ∧
          Covered (contents nodeHash).length
            (chunkWrites nodeHash (runFrom step idle honest).2) := by
  refine available_integrity contents honest (fun nodeHash proof offset length decoded hdecode => ?_)
    ⟨fun _ _ => ⟨rfl, rfl, rfl⟩, fun sync hget _ => ?_, trivial⟩
  · simp only [BaoSlices.decode] at hdecode
    split at hdecode
    next hknown =>
      have htale : contents nodeHash = tale := if_pos (by
        obtain ⟨bytes⟩ := nodeHash
        exact congrArg NodeHash.mk hknown.2)
      rw [htale]
      exact (Option.some.inj hdecode).symm
    next => cases hdecode
  · cases hget
    exact ⟨rfl, by decide, by decide⟩

/-- A peer offers a blob without a root and sends one byte of its own. -/
def forged : List BlobEvent :=
  [.blobAvail ⟨6⟩ ⟨taleHash, 3, none, .available, none, none⟩ (some fun _ => false),
    .blobData ⟨6⟩ ⟨taleHash, 0, [9], []⟩ (some fun _ => false)]

open BlobSyncs in
/-- The blob is called available, and no content with its root was written. -/
theorem forged_available :
    BlobEffect.blobAvailable taleHash ∈ (runFrom step idle forged).2 ∧
      ∀ content : Bytes, (BaoFormat.outboard content).2 = taleHash.bytes →
        ¬ (Covered content.length (chunkWrites taleHash (runFrom step idle forged).2) ∧
          ∀ write ∈ chunkWrites taleHash (runFrom step idle forged).2,
            write.2 = (content.drop write.1).take write.2.length) := by
  have heffects : (runFrom step idle forged).2 =
      [.writeBlobInfo ⟨taleHash, 3, none, .pending, none, none⟩,
        .writeChunk taleHash 0 [9] [],
        .writeBlobInfo ⟨taleHash, 3, none, .available, none, none⟩,
        .blobAvailable taleHash] := by
    decide +kernel
  have hwrites : chunkWrites taleHash (runFrom step idle forged).2 = [(0, [9])] := by
    rw [heffects]
    decide +kernel
  refine ⟨by rw [heffects]; simp, fun content hroot ⟨hcovered, hagrees⟩ => ?_⟩
  rw [hwrites] at hcovered hagrees
  have hone : content.length ≤ 1 := by
    by_contra hlong
    obtain ⟨write, hmem, -, hcovers⟩ := hcovered 1 (by omega)
    rw [List.mem_singleton.mp hmem] at hcovers
    exact absurd hcovers (by decide)
  have hbyte := hagrees _ List.mem_cons_self
  obtain rfl : content = [9] := by
    match content, hone with
    | [], _ => cases hbyte
    | [byte], _ => exact hbyte.symm
    | _ :: _ :: _, hlong => simp at hlong
  exact absurd hroot (by decide +kernel)

end Swarm

end MerkleTox.Fs
