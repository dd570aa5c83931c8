import MerkleTox.Fs.Opaque
import MerkleTox.Library.Frames

/-! # The segments and the index of the opaque store

Segments are logs of frames, and every record of the index resolves to a frame. Writing
a record and pointing its hash there keep it so.
-/

namespace MerkleTox.Fs

open Library Proto MerkleTox.Core

variable {n segmentId offset id : Nat} {records : List OpaqueIndexRecord} {contents written : Bytes}
  {kept : OpaqueStore}

/-! ## Frames -/

@[simp]
theorem length_toLe (width n : Nat) : (toLe width n).length = width := by
  rw [toLe, List.length_reverse, length_toBe]

theorem fromLe_toLe (width : Nat) (hn : n < 256 ^ width) : fromLe (toLe width n) = n := by
  rw [fromLe, toLe, List.reverse_reverse, fromBe_toBe width hn]

theorem readLe_toLe_append (width : Nat) (hn : n < 256 ^ width) (rest : Bytes) :
    readLe width (toLe width n ++ rest) = some (n, rest) := by
  have hread := readExact_append (toLe width n) rest
  rw [length_toLe] at hread
  simp [readLe, hread, fromLe_toLe width hn]

/-- Data whose length fits into the four bytes before it. -/
def Short (data : Bytes) : Prop := data.length < 2 ^ 32

theorem decodes_frames : Decodes writeFrame readFrame Short where
  decode_append data hshort rest := by
    have hlength : data.length < 256 ^ 4 := hshort
    rw [readFrame, writeFrame, List.append_assoc, readLe_toLe_append 4 hlength]
    exact readExact_append data rest
  encode_ne_nil data _ hnil := by
    have hlength := congrArg List.length hnil
    rw [writeFrame, List.length_append, length_toLe] at hlength
    simp at hlength

theorem length_writeFrame (data : Bytes) : (writeFrame data).length = data.length + 4 := by
  rw [writeFrame, List.length_append, length_toLe, Nat.add_comm]

theorem readFrames_eq (fuel : Nat) (input : Bytes) :
    readFrames fuel input = scan readFrame fuel input := by
  induction fuel generalizing input with
  | zero => rfl
  | succ fuel ih =>
      rw [readFrames, scan]
      cases readFrame input with
      | none => rfl
      | some frame => exact congrArg (frame.1 :: ·) (ih frame.2)

theorem framesOf_encodeAll {frames : List Bytes} (hshort : ∀ data ∈ frames, Short data) :
    framesOf (encodeAll writeFrame frames) = frames := by
  have hnone : readFrame [] = none := rfl
  have hscan := decodes_frames.scan_eq hshort hnone
    (decodes_frames.length_le hshort)
  rw [List.append_nil] at hscan
  rw [framesOf, readFrames_eq, hscan]

namespace OpaqueStore

/-! ## Well-formed stores -/

/-- The record points at a frame with the data. -/
def Resolves (store : OpaqueStore) (record : OpaqueIndexRecord) (data : Bytes) : Prop :=
  ∃ before after, store.segments.get record.segmentId =
      some (encodeAll writeFrame (before ++ data :: after)) ∧
    (∀ frame ∈ before ++ data :: after, Short frame) ∧
    record.offset = (encodeAll writeFrame before).length

/-- The segments are logs of frames; the index is sorted by its hashes, each of which it
has once, and its records resolve. -/
structure WellFormed (store : OpaqueStore) : Prop where
  framed : ∀ id contents, store.segments.get id = some contents →
    ∃ frames, contents = encodeAll writeFrame frames ∧ ∀ data ∈ frames, Short data
  sorted : store.index.Pairwise fun left right => left.hash.bytes.toNat < right.hash.bytes.toNat
  resolved : ∀ record ∈ store.index, ∃ data, store.Resolves record data

theorem wellFormed_new : new.WellFormed where
  framed _ _ hget := nomatch hget
  sorted := .nil
  resolved _ hmem := absurd hmem List.not_mem_nil

/-! ## The index -/

theorem toNat_hash_inj {left right : NodeHash} :
    left.bytes.toNat = right.bytes.toNat ↔ left = right := by
  constructor
  · intro heq
    cases left
    cases right
    exact congrArg NodeHash.mk (BitVec.eq_of_toNat_eq heq)
  · rintro rfl
    rfl

variable {nodeHash : NodeHash} {record : OpaqueIndexRecord} {data : Bytes}

/-- An index without repeated hashes finds each of its records. -/
theorem find?_eq_some_iff {index : List OpaqueIndexRecord}
    (hsorted : index.Pairwise fun left right => left.hash.bytes.toNat < right.hash.bytes.toNat) :
    index.find? (fun record => record.hash = nodeHash) = some record ↔
      record ∈ index ∧ record.hash = nodeHash := by
  refine ⟨fun hfind => ⟨List.mem_of_find?_eq_some hfind, by simpa using List.find?_some hfind⟩, ?_⟩
  rintro ⟨hmem, rfl⟩
  induction index with
  | nil => cases hmem
  | cons first rest ih =>
      rw [List.pairwise_cons] at hsorted
      rcases List.mem_cons.mp hmem with rfl | hrest
      · simp
      · have hne : first.hash ≠ record.hash := fun heq =>
          (hsorted.1 record hrest).ne (toNat_hash_inj.mpr heq)
        rw [List.find?_cons_of_neg (by simpa using hne)]
        exact ih hsorted.2 hrest

theorem mem_placeRecord :
    record ∈ placeRecord nodeHash segmentId offset records ↔
      record = ⟨nodeHash, segmentId, offset⟩ ∨ record ∈ records ∧ record.hash ≠ nodeHash := by
  unfold placeRecord
  split
  next hany =>
    obtain ⟨known, hknown, hhash⟩ := List.any_eq_true.mp hany
    rw [List.mem_map]
    constructor
    · rintro ⟨old, hold, rfl⟩
      split
      · exact .inl rfl
      next hne => exact .inr ⟨hold, hne⟩
    · rintro (rfl | ⟨hmem, hne⟩)
      · exact ⟨known, hknown, if_pos (by simpa using hhash)⟩
      · exact ⟨record, hmem, if_neg hne⟩
  next hnone =>
    rw [sortByKey, List.mem_insertionSort, List.mem_append, List.mem_singleton, or_comm]
    refine or_congr_right (iff_self_and.mpr fun hmem heq => hnone ?_)
    exact List.any_eq_true.mpr ⟨record, hmem, by simpa using heq⟩

theorem sorted_placeRecord
    (hsorted : records.Pairwise fun left right => left.hash.bytes.toNat < right.hash.bytes.toNat) :
    (placeRecord nodeHash segmentId offset records).Pairwise fun left right =>
      left.hash.bytes.toNat < right.hash.bytes.toNat := by
  unfold placeRecord
  split
  next =>
    rw [List.pairwise_map]
    refine hsorted.imp fun {left right} hlt => ?_
    have hhash : ∀ record : OpaqueIndexRecord,
        (if record.hash = nodeHash then (⟨nodeHash, segmentId, offset⟩ : OpaqueIndexRecord)
          else record).hash = record.hash := by
      intro record
      split
      next heq => exact heq.symm
      next => rfl
    rw [hhash, hhash]
    exact hlt
  next hnone =>
    let key := fun record : OpaqueIndexRecord => record.hash.bytes.toNat
    have hnodup :
        ((records ++ [(⟨nodeHash, segmentId, offset⟩ : OpaqueIndexRecord)]).map key).Nodup := by
      rw [List.map_append, List.nodup_append]
      refine ⟨?_, List.nodup_singleton _, ?_⟩
      · rw [List.Nodup, List.pairwise_map]
        exact hsorted.imp fun hlt => hlt.ne
      · intro left hleft right hright heq
        obtain ⟨record, hmem, rfl⟩ := List.mem_map.mp hleft
        rw [List.map_singleton, List.mem_singleton] at hright
        refine hnone (List.any_eq_true.mpr ⟨record, hmem, ?_⟩)
        exact decide_eq_true (toNat_hash_inj.mp (heq.trans hright))
    generalize records ++ [(⟨nodeHash, segmentId, offset⟩ : OpaqueIndexRecord)] = all at hnodup ⊢
    have hsame : ((sortByKey key all).map key).Nodup :=
      ((List.perm_insertionSort _ all).map key).nodup_iff.mpr hnodup
    have hle : (sortByKey key all).Pairwise fun left right => key left ≤ key right :=
      List.pairwise_insertionSort (fun left right => key left ≤ key right) all
    rw [List.Nodup, List.pairwise_map] at hsame
    exact hle.imp₂ (fun _ _ hle hne => lt_of_le_of_ne hle hne) hsame

variable {store : OpaqueStore}

/-! ## Reading -/

theorem Resolves.read (h : store.Resolves record data) :
    ∃ contents, store.segments.get record.segmentId = some contents ∧
      ∃ rest, readFrame (contents.drop record.offset) = some (data, rest) := by
  obtain ⟨before, after, hget, hshort, hoffset⟩ := h
  refine ⟨_, hget, encodeAll writeFrame after, ?_⟩
  rw [encodeAll_append, encodeAll_cons, hoffset]
  exact decodes_frames.decode_drop (hshort data (by simp)) _

theorem WellFormed.getNode_of_mem (h : store.WellFormed) (hmem : record ∈ store.index)
    (hresolves : store.Resolves record data) : store.getNode record.hash = .ok (some data) := by
  obtain ⟨contents, hget, rest, hread⟩ := hresolves.read
  rw [getNode, (find?_eq_some_iff h.sorted).mpr ⟨hmem, rfl⟩]
  simp only [hget, hread]

theorem getNode_of_not_mem (habsent : ∀ record ∈ store.index, record.hash ≠ nodeHash) :
    store.getNode nodeHash = .ok none := by
  rw [getNode, List.find?_eq_none.mpr]
  intro record hmem
  simpa using habsent record hmem

/-- Every read succeeds: with the data of the record of the hash, or with nothing. -/
theorem WellFormed.getNode_cases (h : store.WellFormed) (nodeHash : NodeHash) :
    (∃ record ∈ store.index, ∃ data, record.hash = nodeHash ∧ store.Resolves record data ∧
      store.getNode nodeHash = .ok (some data)) ∨
    ((∀ record ∈ store.index, record.hash ≠ nodeHash) ∧ store.getNode nodeHash = .ok none) := by
  by_cases hknown : ∃ record ∈ store.index, record.hash = nodeHash
  · obtain ⟨record, hmem, rfl⟩ := hknown
    obtain ⟨data, hresolves⟩ := h.resolved record hmem
    exact .inl ⟨record, hmem, data, rfl, hresolves, h.getNode_of_mem hmem hresolves⟩
  · have habsent : ∀ record ∈ store.index, record.hash ≠ nodeHash := fun record hmem heq =>
      hknown ⟨record, hmem, heq⟩
    exact .inr ⟨habsent, getNode_of_not_mem habsent⟩

/-! ## Writing a record -/

/-- The last segment is the newest one. -/
theorem getLast?_sortedSegments (hlast : store.sortedSegments.getLast? = some (id, contents)) :
    store.segments.get id = some contents ∧
      ∀ other contents', store.segments.get other = some contents' → other ≤ id := by
  have hperm : store.sortedSegments.Perm store.segments.entries := List.perm_insertionSort _ _
  refine ⟨AssocMap.get_eq_some_iff.mpr (hperm.mem_iff.mp (List.mem_of_getLast? hlast)), ?_⟩
  intro other contents' hget
  have hmem := hperm.mem_iff.mpr (AssocMap.get_eq_some_iff.mp hget)
  have hsorted : store.sortedSegments.Pairwise fun left right => left.1 ≤ right.1 :=
    List.pairwise_insertionSort (fun left right : Nat × Bytes => left.1 ≤ right.1) _
  obtain ⟨front, hfront⟩ := List.getLast?_eq_some_iff.mp hlast
  rw [hfront, List.mem_append, List.mem_singleton] at hmem
  rw [hfront, List.pairwise_append] at hsorted
  rcases hmem with hold | heq
  · exact hsorted.2.2 _ hold _ List.mem_cons_self
  · exact (Prod.mk.inj heq).1.le

theorem segments_of_getLast?_none (hlast : store.sortedSegments.getLast? = none) (id : Nat) :
    store.segments.get id = none := by
  have hperm : store.sortedSegments.Perm store.segments.entries := List.perm_insertionSort _ _
  rw [List.getLast?_eq_none_iff.mp hlast] at hperm
  rw [AssocMap.get_eq_none_iff, AssocMap.keys, List.nil_perm.mp hperm]
  exact List.not_mem_nil

/-- A record goes to the newest segment or to a new one behind it. -/
theorem le_segmentFor (hget : store.segments.get id = some contents) (length : Nat) :
    id ≤ store.segmentFor length := by
  unfold segmentFor
  cases hlast : store.sortedSegments.getLast? with
  | none =>
      rw [segments_of_getLast?_none hlast] at hget
      cases hget
  | some newest =>
      have hle := (getLast?_sortedSegments hlast).2 id contents hget
      dsimp only
      split
      · exact hle
      · exact hle.trans (Nat.le_succ _)

/-- The segment of a record is new, or has room for it. -/
theorem length_segmentFor (store : OpaqueStore) (length : Nat) :
    ((store.segments.get (store.segmentFor length)).getD []).length ≤ opaqueSegmentMaxSize := by
  unfold segmentFor
  cases hlast : store.sortedSegments.getLast? with
  | none =>
      rw [segments_of_getLast?_none hlast]
      exact Nat.zero_le _
  | some newest =>
      obtain ⟨hget, hnewest⟩ := getLast?_sortedSegments hlast
      dsimp only
      split
      next hroom =>
        rw [hget, Option.getD_some]
        omega
      next =>
        cases hnext : store.segments.get (newest.1 + 1) with
        | none => exact Nat.zero_le _
        | some contents => exact absurd (hnewest _ _ hnext) (by omega)

theorem carryOver_eq (store : OpaqueStore) (nodeHash : NodeHash) (data : Bytes) :
    store.carryOver (nodeHash, data) =
      { store with
        segments := store.segments.insert (store.segmentFor data.length)
          ((store.segments.get (store.segmentFor data.length)).getD [] ++ writeFrame data)
        index := placeRecord nodeHash (store.segmentFor data.length)
          ((store.segments.get (store.segmentFor data.length)).getD []).length store.index } := by
  have hlength := store.length_segmentFor data.length
  rw [carryOver, writeToNewest]
  dsimp only
  rw [updateIndex, Nat.mod_eq_of_lt]
  rw [opaqueSegmentMaxSize] at hlength
  omega

/-- The segments at most grow by the record that is written. -/
theorem segments_carryOver (store : OpaqueStore) (nodeHash : NodeHash) (data : Bytes)
    (id : Nat) :
    (store.carryOver (nodeHash, data)).segments.get id =
      if id = store.segmentFor data.length then
        some ((store.segments.get id).getD [] ++ writeFrame data)
      else store.segments.get id := by
  rw [carryOver_eq, AssocMap.get_insert]
  split
  next heq => rw [heq]
  next => rfl

/-- A record resolves on when its segment grows. -/
theorem Resolves.carryOver (h : store.Resolves record data) (nodeHash : NodeHash)
    (hshort : Short written) : (store.carryOver (nodeHash, written)).Resolves record data := by
  obtain ⟨before, after, hget, hframes, hoffset⟩ := h
  by_cases heq : record.segmentId = store.segmentFor written.length
  · have hlist : before ++ data :: (after ++ [written]) = (before ++ data :: after) ++ [written] :=
      by rw [List.append_assoc, List.cons_append]
    refine ⟨before, after ++ [written], ?_, ?_, hoffset⟩
    · rw [segments_carryOver, if_pos heq, hget, Option.getD_some, hlist, encodeAll_concat]
    · intro frame hmem
      rw [hlist, List.mem_append, List.mem_singleton] at hmem
      rcases hmem with hold | rfl
      · exact hframes frame hold
      · exact hshort
  · exact ⟨before, after, by rw [segments_carryOver, if_neg heq, hget], hframes, hoffset⟩

section

variable (h : store.WellFormed)
include h

theorem WellFormed.framed_segmentFor (length : Nat) :
    ∃ frames, (store.segments.get (store.segmentFor length)).getD [] =
      encodeAll writeFrame frames ∧ ∀ data ∈ frames, Short data := by
  cases hget : store.segments.get (store.segmentFor length) with
  | none => exact ⟨[], rfl, fun _ hmem => absurd hmem List.not_mem_nil⟩
  | some contents => exact h.framed _ _ hget

/-- The record that is written resolves to its data. -/
theorem WellFormed.resolves_written (nodeHash : NodeHash) (hshort : Short data) :
    (store.carryOver (nodeHash, data)).Resolves
      ⟨nodeHash, store.segmentFor data.length,
        ((store.segments.get (store.segmentFor data.length)).getD []).length⟩ data := by
  obtain ⟨frames, hframes, hshorts⟩ := h.framed_segmentFor data.length
  refine ⟨frames, [], ?_, ?_, by rw [hframes]⟩
  · rw [segments_carryOver, if_pos rfl, hframes, encodeAll_concat]
  · intro frame hmem
    rw [List.mem_append, List.mem_singleton] at hmem
    rcases hmem with hold | rfl
    · exact hshorts frame hold
    · exact hshort

theorem WellFormed.carryOver (nodeHash : NodeHash) (hshort : Short data) :
    (store.carryOver (nodeHash, data)).WellFormed where
  framed id contents hget := by
    rw [segments_carryOver] at hget
    split at hget
    next heq =>
      obtain ⟨frames, hframes, hshorts⟩ := h.framed_segmentFor data.length
      refine ⟨frames ++ [data], ?_, ?_⟩
      · rw [← Option.some.inj hget, heq, hframes, encodeAll_concat]
      · intro frame hmem
        rw [List.mem_append, List.mem_singleton] at hmem
        rcases hmem with hold | rfl
        · exact hshorts frame hold
        · exact hshort
    next => exact h.framed _ _ hget
  sorted := by
    rw [carryOver_eq]
    exact sorted_placeRecord h.sorted
  resolved record hmem := by
    rw [carryOver_eq] at hmem
    rcases mem_placeRecord.mp hmem with rfl | ⟨hold, -⟩
    · exact ⟨data, h.resolves_written nodeHash hshort⟩
    · obtain ⟨known, hresolves⟩ := h.resolved record hold
      exact ⟨known, hresolves.carryOver nodeHash hshort⟩

/-- After a write the hash reads its data, and every other hash what it read before. -/
theorem WellFormed.getNode_carryOver (nodeHash : NodeHash) (hshort : Short data) (other : NodeHash)
    :
    (store.carryOver (nodeHash, data)).getNode other =
      if other = nodeHash then .ok (some data) else store.getNode other := by
  have hwritten := h.carryOver nodeHash hshort
  have hindex : ∀ record, record ∈ (store.carryOver (nodeHash, data)).index ↔
      record = ⟨nodeHash, store.segmentFor data.length,
        ((store.segments.get (store.segmentFor data.length)).getD []).length⟩ ∨
      record ∈ store.index ∧ record.hash ≠ nodeHash := by
    intro record
    rw [carryOver_eq]
    exact mem_placeRecord
  split
  next heq =>
    rw [heq]
    exact hwritten.getNode_of_mem ((hindex _).mpr (.inl rfl)) (h.resolves_written nodeHash hshort)
  next hne =>
    obtain ⟨record, hmem, known, rfl, hresolves, hread⟩ | ⟨habsent, hread⟩ := h.getNode_cases other
    · rw [hread]
      exact hwritten.getNode_of_mem ((hindex _).mpr (.inr ⟨hmem, hne⟩))
        (hresolves.carryOver nodeHash hshort)
    · rw [hread]
      refine getNode_of_not_mem fun record hmem heq => ?_
      rcases (hindex _).mp hmem with rfl | ⟨hold, -⟩
      · exact hne heq.symm
      · exact habsent record hold heq

/-! ## Dropping records -/

/-- Part of the index, on segments that its records need as they were. -/
theorem WellFormed.restrict (hindex : kept.index.Sublist store.index)
    (hsegments : ∀ id contents, kept.segments.get id = some contents →
      store.segments.get id = some contents)
    (hneeded : ∀ record ∈ kept.index,
      kept.segments.get record.segmentId = store.segments.get record.segmentId) :
    kept.WellFormed where
  framed id contents hget := h.framed id contents (hsegments _ _ hget)
  sorted := h.sorted.sublist hindex
  resolved record hmem := by
    obtain ⟨data, before, after, hget, hshort, hoffset⟩ := h.resolved record (hindex.subset hmem)
    exact ⟨data, before, after, (hneeded record hmem).trans hget, hshort, hoffset⟩

/-- What is left of the index reads as before, and the rest reads nothing. -/
theorem WellFormed.getNode_restrict (hindex : kept.index.Sublist store.index)
    (hneeded : ∀ record ∈ kept.index,
      kept.segments.get record.segmentId = store.segments.get record.segmentId)
    (hkept : kept.WellFormed) (nodeHash : NodeHash) :
    kept.getNode nodeHash = store.getNode nodeHash ∧
        (∀ record ∈ store.index, record.hash = nodeHash → record ∈ kept.index) ∨
      kept.getNode nodeHash = .ok none ∧
        ∃ record ∈ store.index, record.hash = nodeHash ∧ record ∉ kept.index := by
  obtain ⟨record, hmem, data, rfl, hresolves, hread⟩ | ⟨habsent, hread⟩ := h.getNode_cases nodeHash
  · have honly : ∀ other ∈ store.index, other.hash = record.hash → other = record := by
      intro other hother heq
      have hfind := (find?_eq_some_iff h.sorted).mpr ⟨hother, heq⟩
      rw [(find?_eq_some_iff h.sorted).mpr ⟨hmem, rfl⟩] at hfind
      exact (Option.some.inj hfind).symm
    by_cases hin : record ∈ kept.index
    · refine .inl ⟨?_, fun other hother heq => (honly other hother heq).symm ▸ hin⟩
      obtain ⟨before, after, hget, hshort, hoffset⟩ := hresolves
      rw [hread, hkept.getNode_of_mem hin
        ⟨before, after, (hneeded record hin).trans hget, hshort, hoffset⟩]
    · refine .inr ⟨getNode_of_not_mem fun other hother heq => hin ?_, record, hmem, rfl, hin⟩
      exact honly other (hindex.subset hother) heq ▸ hother
  · refine .inl ⟨?_, fun record hmem heq => absurd heq (habsent record hmem)⟩
    rw [hread]
    exact getNode_of_not_mem fun record hmem => habsent record (hindex.subset hmem)

theorem WellFormed.removeNode (nodeHash : NodeHash) :
    (store.removeNode nodeHash).WellFormed :=
  h.restrict List.filter_sublist (fun _ _ => id) fun _ _ => rfl

theorem WellFormed.getNode_removeNode (nodeHash other : NodeHash) :
    (store.removeNode nodeHash).getNode other =
      if other = nodeHash then .ok none else store.getNode other := by
  have hindex : (store.removeNode nodeHash).index.Sublist store.index := List.filter_sublist
  split
  next heq =>
    refine getNode_of_not_mem fun record hmem => ?_
    rw [heq]
    simpa using (List.mem_filter.mp hmem).2
  next hne =>
    obtain ⟨hread, -⟩ | ⟨-, record, hmem, rfl, hdropped⟩ :=
      h.getNode_restrict hindex (fun _ _ => rfl) (h.removeNode nodeHash) other
    · exact hread
    · exact absurd (List.mem_filter.mpr ⟨hmem, by simpa using hne⟩) hdropped

end

end OpaqueStore

end MerkleTox.Fs
