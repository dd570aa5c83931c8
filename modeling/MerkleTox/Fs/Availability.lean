import MerkleTox.Fs.Blobs
import MerkleTox.Library.Run

/-! # Availability of blobs

What a blob store that is fed records and chunks reads and when it calls a blob
available. A write counts for the chunk of its offset, so that only whole chunks tell
what was written.
-/

namespace MerkleTox.Fs

open Library Proto MerkleTox.Core

variable {nodeHash : NodeHash} {operations : List Operation} {offset numChunks size chunk : Nat}
  {mask file data : Bytes} {since : List (Nat × Bytes)}

namespace BlobStore

inductive Operation
  | putBlobInfo (info : BlobInfo)
  | putChunk (hash : NodeHash) (offset : Nat) (data : Bytes)

/-! ## What was written -/

/-- The offsets and the data that were written to a blob. -/
def writes (nodeHash : NodeHash) (operations : List Operation) : List (Nat × Bytes) :=
  operations.filterMap fun operation =>
    match operation with
    | .putBlobInfo _ => none
    | .putChunk other offset data => if other = nodeHash then some (offset, data) else none

/-- An operation on the writes to a blob since its record was put. -/
def noteWrite (nodeHash : NodeHash) (writes : List (Nat × Bytes)) :
    Operation → List (Nat × Bytes)
  | .putBlobInfo info => if info.hash = nodeHash then [] else writes
  | .putChunk other offset data => if other = nodeHash then writes ++ [(offset, data)] else writes

/-- The writes to a blob since its record was put. -/
def writesSince (nodeHash : NodeHash) (operations : List Operation) : List (Nat × Bytes) :=
  operations.foldl (noteWrite nodeHash) []

/-- The byte last written at each position. -/
def lastWritten (writes : List (Nat × Bytes)) : Nat → Option UInt8 :=
  writes.foldl (fun known write => writeOver known write.1 write.2) fun _ => none

def Covers (write : Nat × Bytes) (position : Nat) : Prop :=
  write.1 ≤ position ∧ position < write.1 + write.2.length

/-- Every position below the size is covered. -/
def Covered (size : Nat) (writes : List (Nat × Bytes)) : Prop :=
  ∀ position < size, ∃ write ∈ writes, Covers write position

variable [BaoFormat] {store : BlobStore}

/-- A call that fails leaves the store as it is. -/
def step (store : BlobStore) : Operation → BlobStore
  | .putBlobInfo info => store.putBlobInfo info
  | .putChunk nodeHash offset data =>
      match store.putChunk nodeHash offset data with
      | .ok after => after
      | .error _ => store

/-- Records are put as pending, and chunks lie within the declared size. -/
def Inside (store : BlobStore) : Operation → Prop
  | .putBlobInfo info => info.status = .pending
  | .putChunk nodeHash offset data =>
      ∃ info, store.getBlobInfo nodeHash = some info ∧ offset + data.length ≤ info.size

/-- The data starts at a multiple of the chunk size and goes on to the next or to the end. -/
def WholeChunk (size offset : Nat) (data : Bytes) : Prop :=
  offset % chunkSize = 0 ∧ data.length = min chunkSize (size - offset)

/-- Records are put without a mask for sizes of 32 bits, and chunks are whole. -/
def Whole (store : BlobStore) : Operation → Prop
  | .putBlobInfo info => info.receivedMask = none ∧ info.size < 2 ^ 32
  | .putChunk nodeHash offset data =>
      ∃ info, store.getBlobInfo nodeHash = some info ∧ WholeChunk info.size offset data

/-- What is asked of the store after a run: a blob is available just when it is written in
full, only what was written is read, and writing to it changes nothing once it is available. -/
structure Promised (operations : List Operation) : Prop where
  available : ∀ nodeHash info,
    (runFrom step new operations).getBlobInfo nodeHash = some info →
      ((runFrom step new operations).hasBlob nodeHash = true ↔
        Covered info.size (writes nodeHash operations))
  reads : ∀ nodeHash info offset length data,
    (runFrom step new operations).getBlobInfo nodeHash = some info →
      offset + length ≤ info.size →
      (runFrom step new operations).getChunk nodeHash offset length = .ok data →
        ∀ index < length, lastWritten (writes nodeHash operations) (offset + index) = data[index]?
  frozen : ∀ nodeHash offset data,
    (runFrom step new operations).hasBlob nodeHash = true →
      ∀ start length, ((runFrom step new operations).step
        (.putChunk nodeHash offset data)).getChunk nodeHash start length =
          (runFrom step new operations).getChunk nodeHash start length

/-! ## One write -/

/-- The record after a write to its blob. -/
def received (store : BlobStore) (info : BlobInfo) (offset : Nat) (data : Bytes) : BlobInfo :=
  let mask := markChunk (info.receivedMask.getD []) (offset / chunkSize)
  let after := store.writeChunk info.hash offset data
  if isComplete info.numChunks mask && after.readsInFull info.hash info.size then
    { info with
      status := .available
      baoRoot := some (BaoFormat.outboard ((after.blobs.get info.hash).getD [])).2
      receivedMask := some (fullMask info.numChunks) }
  else { info.started with receivedMask := some mask }

theorem hash_received (store : BlobStore) (info : BlobInfo) (offset : Nat) (data : Bytes) :
    (store.received info offset data).hash = info.hash := by
  unfold received
  extract_lets mask after
  split
  · rfl
  · exact info.started_hash

theorem size_received (store : BlobStore) (info : BlobInfo) (offset : Nat) (data : Bytes) :
    (store.received info offset data).size = info.size := by
  unfold received
  extract_lets mask after
  split
  · rfl
  · exact info.started_size

/-- The records lie under their own hashes. -/
def Keyed (store : BlobStore) : Prop :=
  ∀ nodeHash info, store.infos.get nodeHash = some info → info.hash = nodeHash

/-- A write to a blob that is known changes its file and its record. -/
theorem step_putChunk (hkeyed : store.Keyed) {info : BlobInfo}
    (hinfo : store.getBlobInfo nodeHash = some info) (offset : Nat) (data : Bytes) :
    (store.step (.putChunk nodeHash offset data)).blobs =
        (store.writeChunk nodeHash offset data).blobs ∧
      (store.step (.putChunk nodeHash offset data)).infos =
        store.infos.insert nodeHash (store.received info offset data) := by
  obtain rfl := hkeyed nodeHash info hinfo
  have hget : store.getInfo info.hash = some info := hinfo
  have hfile : (store.writeChunk info.hash offset data).blobs.get info.hash =
      some (writeAt 0 ((store.blobs.get info.hash).getD []) offset data) :=
    AssocMap.get_insert_self _ _ _
  have hinfos : (store.writeChunk info.hash offset data).infos = store.infos := rfl
  simp only [step, putChunk, hget, BlobInfo.started_receivedMask, BlobInfo.started_numChunks,
    BlobInfo.started_size, received]
  generalize markChunk (info.receivedMask.getD []) (offset / chunkSize) = mask
  generalize store.writeChunk info.hash offset data = after at hfile hinfos
  by_cases hcomplete :
      (isComplete info.numChunks mask && after.readsInFull info.hash info.size) = true
  · have hkept : after.infos.get info.hash = some info := by
      rw [hinfos]
      exact hinfo
    simp only [if_pos hcomplete, finalize, hfile, getInfo, hkept, Except.mapError, putInfo,
      Option.getD_some]
    exact ⟨trivial, by rw [hinfos]⟩
  · simp only [if_neg hcomplete, putInfo, BlobInfo.started_hash, hinfos]
    exact ⟨trivial, trivial⟩

omit [BaoFormat] in
theorem file_writeChunk (nodeHash other : NodeHash) (offset : Nat) (data : Bytes) :
    (store.writeChunk nodeHash offset data).blobs.get other =
      if other = nodeHash then some (writeAt 0 ((store.blobs.get nodeHash).getD []) offset data)
      else store.blobs.get other :=
  AssocMap.get_insert _ _ _ _

/-! ## Files -/

/-- The files mirror what was written, and there is one where something was. -/
structure Filed (store : BlobStore) (operations : List Operation) : Prop where
  keyed : store.Keyed
  mirrors : ∀ nodeHash, Mirrors 0 ((store.blobs.get nodeHash).getD [])
    (lastWritten (writes nodeHash operations))
  present : ∀ nodeHash, writes nodeHash operations ≠ [] →
    (store.blobs.get nodeHash).isSome = true

theorem filed_run (hinside : RunMeets step Inside new operations) :
    Filed (runFrom step new operations) operations := by
  -- By induction on the run from its end, where the operation is inside its record.
  induction operations using List.reverseRecOn with
  | nil =>
      exact ⟨fun _ _ hget => (nomatch hget), fun _ => mirrors_nil, fun _ hne => absurd rfl hne⟩
  | append_singleton operations operation ih =>
      obtain ⟨hbefore, hstep, -⟩ := runMeets_append.mp hinside
      obtain ⟨hkeyed, hmirrors, hexists⟩ := ih hbefore
      have hrun : runFrom step new (operations ++ [operation]) =
          (runFrom step new operations).step operation := runFrom_append _ _ _
      rw [hrun]
      generalize runFrom step new operations = store at hkeyed hmirrors hexists hstep
      cases operation with
      | putBlobInfo info =>
          have hwrites : ∀ nodeHash, writes nodeHash (operations ++ [.putBlobInfo info]) =
              writes nodeHash operations := fun nodeHash => by simp [writes]
          refine ⟨AssocMap.forall_insert hkeyed rfl, fun nodeHash => ?_, fun nodeHash => ?_⟩
          · rw [hwrites]
            exact hmirrors nodeHash
          · rw [hwrites]
            exact hexists nodeHash
      | putChunk written offset data =>
          obtain ⟨info, hinfo, -⟩ := hstep
          obtain ⟨hblobs, hinfos⟩ := step_putChunk hkeyed hinfo offset data
          have hwrites : ∀ nodeHash,
              writes nodeHash (operations ++ [.putChunk written offset data]) =
              if written = nodeHash then writes nodeHash operations ++ [(offset, data)]
              else writes nodeHash operations := by
            intro nodeHash
            by_cases heq : written = nodeHash <;> simp [writes, heq]
          refine ⟨?_, fun nodeHash => ?_, fun nodeHash hne => ?_⟩
          · rw [Keyed, hinfos]
            exact AssocMap.forall_insert hkeyed
              ((hash_received _ _ _ _).trans (hkeyed written info hinfo))
          · rw [hblobs, file_writeChunk, hwrites]
            by_cases heq : written = nodeHash
            · rw [if_pos heq.symm, if_pos heq, Option.getD_some, lastWritten, List.foldl_append]
              exact heq ▸ (hmirrors written).writeAt offset data
            · rw [if_neg fun h => heq h.symm, if_neg heq]
              exact hmirrors nodeHash
          · rw [hblobs, file_writeChunk]
            by_cases heq : written = nodeHash
            · rw [if_pos heq.symm]
              rfl
            · rw [if_neg fun h => heq h.symm]
              rw [hwrites, if_neg heq] at hne
              exact hexists nodeHash hne

omit [BaoFormat] in
/-- A read within the declared size of a blob that was written to, unless it goes beyond the
last byte from before it. -/
theorem Filed.getChunk (h : Filed store operations) {info : BlobInfo}
    (hinfo : store.getBlobInfo nodeHash = some info) {length : Nat}
    (hsize : offset + length ≤ info.size) (hwritten : writes nodeHash operations ≠ [])
    (hclear : (∀ position, offset ≤ position →
        lastWritten (writes nodeHash operations) position = none) ∨
      ∃ last, offset + length ≤ last + 1 ∧
        (lastWritten (writes nodeHash operations) last).isSome = true) :
    store.getChunk nodeHash offset length = .ok ((List.range length).map fun index =>
      (lastWritten (writes nodeHash operations) (offset + index)).getD 0) := by
  have hmirrors := h.mirrors nodeHash
  obtain ⟨file, hfile⟩ := Option.isSome_iff_exists.mp (h.present nodeHash hwritten)
  rw [hfile, Option.getD_some] at hmirrors
  have hzeros : (∀ position, offset ≤ position →
      lastWritten (writes nodeHash operations) position = none) →
        List.replicate length 0 = (List.range length).map fun index =>
          (lastWritten (writes nodeHash operations) (offset + index)).getD 0 := by
    intro hnone
    refine (List.eq_replicate_iff.mpr ⟨by simp, fun byte hmem => ?_⟩).symm
    obtain ⟨index, -, rfl⟩ := List.mem_map.mp hmem
    rw [hnone _ (Nat.le_add_right _ _), Option.getD_none]
  rw [BlobStore.getChunk, readChunk, hfile]
  dsimp only
  by_cases hread : length = 0 ∨ offset + length ≤ file.length
  · rw [if_pos hread]
    rcases hread with rfl | hend
    · simp
    · exact congrArg Except.ok (hmirrors.slice hend)
  · rw [if_neg hread]
    dsimp only
    rw [hinfo, Option.any_some, if_pos (decide_eq_true hsize), hzeros]
    refine hclear.resolve_right ?_
    rintro ⟨last, hlast, hsome⟩
    have hlt := hmirrors.lt_length_iff.mpr ⟨last, le_refl _, hsome⟩
    omega

/-! ## Chunks -/

/-- Every chunk is that of the offset of a write. -/
def Marked (numChunks : Nat) (writes : List (Nat × Bytes)) : Prop :=
  ∀ chunk < numChunks, ∃ write ∈ writes, write.1 / chunkSize = chunk

/-- The record knows the chunks of the writes since it was put; the blob is available once
these are all, and the file is long enough. -/
structure Tracked (file : Bytes) (since : List (Nat × Bytes)) (info : BlobInfo) : Prop where
  size : info.size < 2 ^ 32
  marks : ∀ chunk < info.numChunks, hasChunk (info.receivedMask.getD []) chunk = true ↔
    ∃ write ∈ since, write.1 / chunkSize = chunk
  available : info.status = .available ↔
    since ≠ [] ∧ Marked info.numChunks since ∧ info.size ≤ file.length
  whole : ∀ write ∈ since, WholeChunk info.size write.1 write.2
  reach : ∀ write ∈ since, ∀ position, Covers write position → position < file.length

omit [BaoFormat] in
theorem isComplete_iff :
    isComplete numChunks mask = true ↔ ∀ chunk < numChunks, hasChunk mask chunk = true := by
  rw [isComplete, List.all_eq_true]
  exact forall_congr' fun chunk => by rw [List.mem_range]

omit [BaoFormat] in
theorem readsInFull_iff (hfile : store.blobs.get nodeHash = some file) (hsize : size < 2 ^ 32) :
    store.readsInFull nodeHash size = true ↔ size ≤ file.length := by
  rw [readsInFull, readChunk, hfile, Nat.mod_eq_of_lt hsize, Nat.zero_add]
  dsimp only
  by_cases hread : size = 0 ∨ size ≤ file.length
  · rw [if_pos hread]
    simp only [List.drop_zero, List.length_take, decide_eq_true_iff]
    omega
  · rw [if_neg hread]
    simp only [Bool.false_eq_true, false_iff]
    omega

variable (info : BlobInfo)

omit [BaoFormat] in
/-- The write after which every chunk is marked and the file is as long as it should be. -/
theorem completes_iff (offset : Nat) (data : Bytes) (hsize : info.size < 2 ^ 32) :
    (isComplete info.numChunks (markChunk (info.receivedMask.getD []) (offset / chunkSize)) &&
        (store.writeChunk info.hash offset data).readsInFull info.hash info.size) = true ↔
      (∀ chunk < info.numChunks, hasChunk (info.receivedMask.getD []) chunk = true ∨
          chunk = offset / chunkSize) ∧
        info.size ≤ (writeAt 0 ((store.blobs.get info.hash).getD []) offset data).length := by
  have hfile : (store.writeChunk info.hash offset data).blobs.get info.hash =
      some (writeAt 0 ((store.blobs.get info.hash).getD []) offset data) := by
    rw [file_writeChunk, if_pos rfl]
  rw [Bool.and_eq_true, isComplete_iff, readsInFull_iff hfile hsize]
  simp only [hasChunk_markChunk, Bool.or_eq_true, decide_eq_true_iff]

theorem status_received (offset : Nat) (data : Bytes)
    (hsize : info.size < 2 ^ 32) :
    (store.received info offset data).status = .available ↔
      info.status = .available ∨
        (∀ chunk < info.numChunks, hasChunk (info.receivedMask.getD []) chunk = true ∨
          chunk = offset / chunkSize) ∧
        info.size ≤ (writeAt 0 ((store.blobs.get info.hash).getD []) offset data).length := by
  rw [← completes_iff info offset data hsize, received]
  split
  next hdone => simp [hdone]
  next hopen =>
    rw [or_iff_left hopen, BlobInfo.started]
    dsimp only
    split
    next hpending => simp [hpending]
    next => rfl

theorem hasChunk_received (offset : Nat) (data : Bytes) (hchunk : chunk < info.numChunks) :
    hasChunk ((store.received info offset data).receivedMask.getD []) chunk = true ↔
      hasChunk (info.receivedMask.getD []) chunk = true ∨ chunk = offset / chunkSize := by
  have hmark := hasChunk_markChunk (info.receivedMask.getD []) (offset / chunkSize) chunk
  unfold received
  extract_lets mask after
  by_cases hdone : (isComplete info.numChunks mask && after.readsInFull info.hash info.size) = true
  · rw [if_pos hdone]
    have hmarked := isComplete_iff.mp (Bool.and_eq_true_iff.mp hdone).1 chunk hchunk
    rw [hmark, Bool.or_eq_true, decide_eq_true_iff] at hmarked
    rw [Option.getD_some, hasChunk_fullMask hchunk]
    exact iff_of_true rfl hmarked
  · rw [if_neg hdone, Option.getD_some, hmark, Bool.or_eq_true, decide_eq_true_iff]

theorem numChunks_received (offset : Nat) (data : Bytes) :
    (store.received info offset data).numChunks = info.numChunks := by
  rw [BlobInfo.numChunks, size_received, BlobInfo.numChunks]

theorem Tracked.received {info : BlobInfo}
    (h : Tracked ((store.blobs.get info.hash).getD []) since info)
    (hwhole : WholeChunk info.size offset data) :
    Tracked (writeAt 0 ((store.blobs.get info.hash).getD []) offset data)
      (since ++ [(offset, data)]) (store.received info offset data) where
  size := by
    rw [size_received]
    exact h.size
  marks chunk hchunk := by
    rw [numChunks_received] at hchunk
    rw [hasChunk_received info offset data hchunk, h.marks chunk hchunk]
    constructor
    · rintro (⟨write, hmem, heq⟩ | heq)
      · exact ⟨write, List.mem_append_left _ hmem, heq⟩
      · exact ⟨(offset, data), by simp, heq.symm⟩
    · rintro ⟨write, hmem, heq⟩
      rcases List.mem_append.mp hmem with hmem | hmem
      · exact .inl ⟨write, hmem, heq⟩
      · rw [List.mem_singleton.mp hmem] at heq
        exact .inr heq.symm
  available := by
    rw [numChunks_received, size_received, status_received info offset data h.size, h.available]
    -- The chunk that arrives is the one chunk whose mark changes.
    have hmarked : Marked info.numChunks (since ++ [(offset, data)]) ↔
        ∀ chunk < info.numChunks, hasChunk (info.receivedMask.getD []) chunk = true ∨
          chunk = offset / chunkSize := by
      refine forall_congr' fun chunk => imp_congr_right fun hchunk => ?_
      rw [h.marks chunk hchunk]
      simp only [List.mem_append, List.mem_singleton, or_and_right, exists_or, exists_eq_left,
        eq_comm]
    have hlength : ((store.blobs.get info.hash).getD []).length ≤
        (writeAt 0 ((store.blobs.get info.hash).getD []) offset data).length := by
      rw [length_writeAt]
      split
      · exact le_refl _
      · exact le_max_left _ _
    rw [← hmarked]
    constructor
    · rintro (⟨-, hall, hlong⟩ | hdone)
      · refine ⟨by simp, fun chunk hchunk => ?_, hlong.trans hlength⟩
        obtain ⟨write, hmem, heq⟩ := hall chunk hchunk
        exact ⟨write, List.mem_append_left _ hmem, heq⟩
      · exact ⟨by simp, hdone⟩
    · exact fun hdone => .inr hdone.2
  whole write hmem := by
    rw [size_received]
    rcases List.mem_append.mp hmem with hmem | hmem
    · exact h.whole write hmem
    · rw [List.mem_singleton.mp hmem]
      exact hwhole
  reach write hmem position hcovers := by
    rw [length_writeAt]
    rcases List.mem_append.mp hmem with hmem | hmem
    · have hlt := h.reach write hmem position hcovers
      split
      · exact hlt
      · exact hlt.trans_le (le_max_left _ _)
    · rw [List.mem_singleton.mp hmem] at hcovers
      obtain ⟨hfrom, hto⟩ := hcovers
      rw [if_neg]
      · exact hto.trans_le (le_max_right _ _)
      · intro hnil
        rw [List.isEmpty_iff.mp hnil, List.length_nil] at hto
        omega

theorem tracked_run (hinside : RunMeets step Inside new operations)
    (hwhole : RunMeets step Whole new operations) {info : BlobInfo}
    (hinfo : (runFrom step new operations).getBlobInfo nodeHash = some info) :
    Tracked (((runFrom step new operations).blobs.get nodeHash).getD [])
      (writesSince nodeHash operations) info := by
  -- By induction on the run from its end: the record read now is that of the last write.
  induction operations using List.reverseRecOn generalizing info with
  | nil => cases hinfo
  | append_singleton operations operation ih =>
      obtain ⟨hbefore, hstep, -⟩ := runMeets_append.mp hinside
      obtain ⟨hbefore', hstep', -⟩ := runMeets_append.mp hwhole
      have hkeyed := (filed_run hbefore).keyed
      have htracked := @ih hbefore hbefore'
      have hrun : runFrom step new (operations ++ [operation]) =
          (runFrom step new operations).step operation := runFrom_append _ _ _
      have hsince : writesSince nodeHash (operations ++ [operation]) =
          noteWrite nodeHash (writesSince nodeHash operations) operation := List.foldl_append
      rw [hrun] at hinfo ⊢
      rw [hsince]
      generalize runFrom step new operations = store at hkeyed hstep hstep' htracked hinfo ⊢
      cases operation with
      | putBlobInfo put =>
          change (store.infos.insert put.hash put).get nodeHash = some info at hinfo
          change Tracked ((store.blobs.get nodeHash).getD []) _ info
          rw [AssocMap.get_insert] at hinfo
          rw [noteWrite]
          split at hinfo
          next heq =>
            -- A record that is put starts over, pending and without marks.
            obtain rfl := Option.some.inj hinfo
            rw [if_pos heq.symm]
            refine ⟨hstep'.2, fun chunk _ => ?_, ?_, ?_, ?_⟩
            · rw [hstep'.1]
              simp [hasChunk]
            · rw [show put.status = .pending from hstep]
              simp
            · exact fun _ hmem => absurd hmem List.not_mem_nil
            · exact fun _ hmem => absurd hmem List.not_mem_nil
          next hne =>
            rw [if_neg fun heq => hne heq.symm]
            exact htracked hinfo
      | putChunk written offset data =>
          obtain ⟨old, hold, -⟩ := hstep
          obtain ⟨hblobs, hinfos⟩ := step_putChunk hkeyed hold offset data
          rw [hblobs, file_writeChunk, noteWrite]
          rw [getBlobInfo, getInfo, hinfos, AssocMap.get_insert] at hinfo
          by_cases heq : nodeHash = written
          · rw [if_pos heq] at hinfo
            rw [if_pos heq, if_pos heq.symm, Option.getD_some, ← Option.some.inj hinfo]
            subst heq
            have hkey := hkeyed nodeHash old hold
            have hbefore := htracked hold
            rw [← hkey] at hbefore ⊢
            obtain ⟨known, hknown, hwholeChunk⟩ := hstep'
            rw [hold] at hknown
            exact hbefore.received (Option.some.inj hknown ▸ hwholeChunk)
          · rw [if_neg heq] at hinfo
            rw [if_neg heq, if_neg fun h => heq h.symm]
            exact htracked hinfo

omit [BaoFormat] in
/-- Whole chunks are all marked just when they cover the blob. -/
theorem Tracked.covered_iff {info : BlobInfo} (h : Tracked file since info) :
    Marked info.numChunks since ∧ info.size ≤ file.length ↔ Covered info.size since := by
  have hnumChunks : ∀ chunk, chunk < info.numChunks ↔ chunk * chunkSize < info.size := by
    intro chunk
    simp only [BlobInfo.numChunks, chunkSize]
    omega
  constructor
  · rintro ⟨hmarked, -⟩ position hposition
    obtain ⟨write, hmem, heq⟩ := hmarked (position / chunkSize) ((hnumChunks _).mpr
      ((Nat.div_mul_le_self _ _).trans_lt hposition))
    obtain ⟨hstart, hlength⟩ := h.whole write hmem
    simp only [chunkSize] at hstart hlength heq
    exact ⟨write, hmem, by omega, by omega⟩
  · intro hcovered
    constructor
    · intro chunk hlt
      obtain ⟨write, hmem, hfrom, hto⟩ := hcovered _ ((hnumChunks chunk).mp hlt)
      obtain ⟨hstart, hlength⟩ := h.whole write hmem
      refine ⟨write, hmem, ?_⟩
      simp only [chunkSize] at *
      omega
    · by_contra hshort
      obtain ⟨write, hmem, hcovers⟩ := hcovered file.length (Nat.not_le.mp hshort)
      exact absurd (h.reach write hmem _ hcovers) (lt_irrefl _)

/-- A blob reads as it was last written, with zeros between, and in runs of whole chunks it is
available just when it is written in full. -/
theorem reads_and_available {operations : List Operation}
    (hinside : RunMeets step Inside new operations) {nodeHash : NodeHash} {info : BlobInfo}
    (hinfo : (runFrom step new operations).getBlobInfo nodeHash = some info) :
    (∀ offset length, offset + length ≤ info.size → writes nodeHash operations ≠ [] →
      ((∀ position, offset ≤ position →
          lastWritten (writes nodeHash operations) position = none) ∨
        ∃ last, offset + length ≤ last + 1 ∧
          (lastWritten (writes nodeHash operations) last).isSome = true) →
      (runFrom step new operations).getChunk nodeHash offset length =
        .ok ((List.range length).map fun index =>
          (lastWritten (writes nodeHash operations) (offset + index)).getD 0)) ∧
    (RunMeets step Whole new operations →
      ((runFrom step new operations).hasBlob nodeHash = true ↔
        writesSince nodeHash operations ≠ [] ∧
          Covered info.size (writesSince nodeHash operations))) := by
  refine ⟨fun offset length => (filed_run hinside).getChunk hinfo, fun hwhole => ?_⟩
  have htracked := tracked_run hinside hwhole hinfo
  have hinfo' : (runFrom step new operations).getInfo nodeHash = some info := hinfo
  rw [hasBlob, hinfo', Option.any_some, decide_eq_true_iff, htracked.available,
    htracked.covered_iff]

end BlobStore

namespace Availability

open BlobStore

instance (priority := low) referenceBao : BaoFormat where
  outboard data := (data, ⟨0⟩)

/-- A pending blob of four bytes. -/
def small : BlobInfo := ⟨⟨1⟩, 4, none, .pending, none, none⟩

/-- A pending blob of two chunks, of which the last is written. -/
def lastChunk : List Operation :=
  [.putBlobInfo { small with size := 65540 }, .putChunk ⟨1⟩ 65536 [1, 2, 3, 4]]

theorem lastChunk_info : ∃ info, (runFrom step new lastChunk).getBlobInfo ⟨1⟩ = some info ∧
    info.size = 65540 :=
  ⟨_, rfl, rfl⟩

theorem lastChunk_inside : RunMeets step Inside new lastChunk :=
  ⟨rfl, ⟨_, rfl, by decide⟩, trivial⟩

theorem lastChunk_whole : RunMeets step Whole new lastChunk :=
  ⟨⟨rfl, by decide⟩, ⟨_, rfl, by decide, by decide⟩, trivial⟩

/-- The first chunk is written too. -/
def bothChunks (data : Bytes) : List Operation := lastChunk ++ [.putChunk ⟨1⟩ 0 data]

theorem bothChunks_info (data : Bytes) :
    ∃ info, (runFrom step new (bothChunks data)).getBlobInfo ⟨1⟩ = some info ∧
      info.size = 65540 := by
  obtain ⟨info, hinfo, hsize⟩ := lastChunk_info
  have hinfos := (step_putChunk (filed_run lastChunk_inside).keyed hinfo 0 data).2
  refine ⟨_, ?_, (size_received (runFrom step new lastChunk) info 0 data).trans hsize⟩
  rw [bothChunks, runFrom_append, runFrom_cons, runFrom_nil, getBlobInfo, getInfo, hinfos]
  exact AssocMap.get_insert_self _ _ _

theorem bothChunks_meets (hdata : data.length = 65536) :
    RunMeets step Inside new (bothChunks data) ∧ RunMeets step Whole new (bothChunks data) := by
  obtain ⟨info, hinfo, hsize⟩ := lastChunk_info
  constructor
  · exact runMeets_append.mpr ⟨lastChunk_inside, ⟨info, hinfo, by omega⟩, trivial⟩
  · refine runMeets_append.mpr ⟨lastChunk_whole, ⟨info, hinfo, rfl, ?_⟩, trivial⟩
    rw [hdata, hsize]
    rfl

theorem bothChunks_covered (hdata : data.length = 65536) :
    Covered 65540 (writesSince ⟨1⟩ (bothChunks data)) := by
  intro position hlt
  by_cases hfirst : position < 65536
  · exact ⟨(0, data), .tail _ (.head _), Nat.zero_le _, by dsimp only; omega⟩
  · exact ⟨(65536, [1, 2, 3, 4]), .head _, Nat.not_lt.mp hfirst, hlt⟩

/-- The first chunk reads as zeros while it is unwritten; with it the blob is available. -/
theorem reads_chunks :
    (runFrom step new lastChunk).getChunk ⟨1⟩ 65534 4 = .ok [0, 0, 1, 2] ∧
      (runFrom step new lastChunk).hasBlob ⟨1⟩ = false ∧
      (runFrom step new (bothChunks (List.replicate 65536 7))).hasBlob ⟨1⟩ = true := by
  obtain ⟨info, hinfo, hsize⟩ := lastChunk_info
  obtain ⟨hreads, havailable⟩ := @reads_and_available _ _ lastChunk_inside ⟨1⟩ info hinfo
  refine ⟨hreads 65534 4 (by omega) (List.cons_ne_nil _ _) (.inr ⟨65539, by omega, rfl⟩), ?_, ?_⟩
  · rw [← Bool.not_eq_true, havailable lastChunk_whole]
    rintro ⟨-, hcovered⟩
    obtain ⟨write, hmem, hfrom, -⟩ := hcovered 0 (by omega)
    rw [List.mem_singleton.mp hmem] at hfrom
    cases hfrom
  · have hlength : (List.replicate 65536 (7 : UInt8)).length = 65536 := List.length_replicate
    obtain ⟨hinside, hwhole⟩ := bothChunks_meets hlength
    obtain ⟨after, hafter, hsame⟩ := bothChunks_info (List.replicate 65536 7)
    refine ((@reads_and_available _ _ hinside ⟨1⟩ after hafter).2 hwhole).mpr
      ⟨List.cons_ne_nil _ _, ?_⟩
    rw [hsame]
    exact bothChunks_covered hlength

/-- Positions of the declared size that were never written read as zeros. -/
theorem unwritten_read : ¬ Promised [.putBlobInfo small, .putChunk ⟨1⟩ 0 [1]] := by
  intro hpromised
  have hread := hpromised.reads ⟨1⟩ _ 2 1 [0] rfl (by decide) rfl 0 (by decide)
  cases hread

end Availability

end MerkleTox.Fs
