import MerkleTox.Fs.Eviction
import MerkleTox.Fs.Reference

/-! # Runs of the opaque store

What a store of opaque nodes owes its caller over any sequence of writes, removals and
locks, and when it keeps to it.
-/

namespace MerkleTox.Fs

open Library Proto MerkleTox.Core

namespace OpaqueStore

/-- What callers do with the store. The locks are files that others put beside the segments
and take away. -/
inductive Operation
  | put (hash : NodeHash) (data : Bytes)
  | remove (hash : NodeHash)
  | lock (ids : List Nat)

/-- An operation on what was last put under each hash. -/
def note (known : NodeHash → Option Bytes) : Operation → NodeHash → Option Bytes
  | .put nodeHash data => Function.update known nodeHash (some data)
  | .remove nodeHash => Function.update known nodeHash none
  | .lock _ => known

/-- The data last put under each hash and not removed since. -/
def lastPut (operations : List Operation) : NodeHash → Option Bytes :=
  operations.foldl note fun _ => none

variable [WireFormat]

/-- Data of an anchor: a wire node with an admin signature or a key wrap. -/
def IsAnchorData (data : Bytes) : Prop :=
  ∃ wire, WireFormat.deserializeWire data = some wire ∧ isAnchor wire = true

def step (store : OpaqueStore) : Operation → OpaqueStore
  | .put nodeHash data => store.putNode nodeHash data
  | .remove nodeHash => store.removeNode nodeHash
  | .lock ids => { store with locks := ids }

/-- The store before an operation evicts anything. -/
def recorded (store : OpaqueStore) : Operation → OpaqueStore
  | .put nodeHash data => store.carryOver (nodeHash, data)
  | .remove nodeHash => store.removeNode nodeHash
  | .lock ids => { store with locks := ids }

/-- What a hash reads after an operation, evictions apart. -/
def expected (store : OpaqueStore) (operation : Operation) (nodeHash : NodeHash) :
    Except IoError (Option Bytes) :=
  match operation with
  | .put written data => if nodeHash = written then .ok (some data) else store.getNode nodeHash
  | .remove removed => if nodeHash = removed then .ok none else store.getNode nodeHash
  | .lock _ => store.getNode nodeHash

/-- The hash lies in a segment that the operation deletes, and its data is no anchor. -/
def Lapses (store : OpaqueStore) (operation : Operation) (nodeHash : NodeHash) : Prop :=
  ∃ record ∈ (store.recorded operation).index, record.hash = nodeHash ∧
    (store.step operation).segments.get record.segmentId = none ∧
      ∀ data, (store.recorded operation).getNode nodeHash = .ok (some data) → ¬ IsAnchorData data

/-- The segments are within their limit, or all that is left is locked or new, with anchors
that were carried over. -/
def WithinLimit (store : OpaqueStore) (operation : Operation) : Prop :=
  (store.step operation).totalSize ≤ opaqueTotalMaxSize ∨
    ∀ id contents, (store.step operation).segments.get id = some contents →
      id ∈ store.locks ∨ (store.recorded operation).segments.get id = none ∧
        ∀ data ∈ framesOf contents, IsAnchorData data

/-- What the store owes for one operation. -/
structure Lawful (store : OpaqueStore) (operation : Operation) : Prop where
  sorted : (store.step operation).index.Pairwise fun left right =>
    left.hash.bytes.toNat < right.hash.bytes.toNat
  reads : ∀ nodeHash,
    (store.step operation).getNode nodeHash = store.expected operation nodeHash ∨
      (store.step operation).getNode nodeHash = .ok none ∧ store.Lapses operation nodeHash
  within : ∀ nodeHash data, operation = .put nodeHash data → store.WithinLimit operation

/-- The segments that are due when the store checks for eviction. -/
def dueIds (store : OpaqueStore) : List Nat :=
  store.evictedIds store.totalSize (store.sortedSegments.map Prod.fst)

/-- What the anchors add does not outweigh what is deleted, beyond the limit, or there is
nothing else to delete. -/
def Fits (store : OpaqueStore) : Prop :=
  store.totalSize + (store.dueIds.map fun id => framesSize (store.anchorsIn id)).sum ≤
      opaqueTotalMaxSize + (store.dueIds.map store.segmentSize).sum ∨
    ∀ id, (store.segments.get id).isSome = true → id ∈ store.locks ∨ id ∈ store.dueIds

/-- Writing is harmless when the length of the data fits its four bytes and the eviction that
follows spares the anchors and makes the room it counts on. -/
def Harmless (store : OpaqueStore) (operation : Operation) : Prop :=
  ∀ nodeHash data, operation = .put nodeHash data →
    Short data ∧
      (store.carryOver (nodeHash, data)).Spares (store.carryOver (nodeHash, data)).totalSize
        ((store.carryOver (nodeHash, data)).sortedSegments.map Prod.fst) ∧
      (store.carryOver (nodeHash, data)).Fits

/-! ## One operation -/

variable {store : OpaqueStore}
variable {data : Bytes} {nodeHash : NodeHash}

theorem anchorHash_eq_none_iff : anchorHash data = none ↔ ¬ IsAnchorData data := by
  unfold anchorHash IsAnchorData
  cases WireFormat.deserializeWire data with
  | none => simp
  | some wire => by_cases hanchor : isAnchor wire = true <;> simp [hanchor]

omit [WireFormat] in
theorem sorted_sortedSegments (store : OpaqueStore) :
    (store.sortedSegments.map Prod.fst).Pairwise (· < ·) := by
  have hnodup : (store.sortedSegments.map Prod.fst).Nodup :=
    ((List.perm_insertionSort _ _).map Prod.fst).nodup_iff.mpr store.segments.nodupKeys
  have hle : store.sortedSegments.Pairwise fun left right => left.1 ≤ right.1 :=
    List.pairwise_insertionSort (fun left right : Nat × Bytes => left.1 ≤ right.1) _
  rw [List.Nodup, List.pairwise_map] at hnodup
  rw [List.pairwise_map]
  exact hle.imp₂ (fun _ _ hle hne => lt_of_le_of_ne hle hne) hnodup

omit [WireFormat] in
theorem mem_sortedSegments {id : Nat} :
    id ∈ store.sortedSegments.map Prod.fst ↔ (store.segments.get id).isSome = true := by
  have hperm : store.sortedSegments.Perm store.segments.entries := List.perm_insertionSort _ _
  rw [(hperm.map Prod.fst).mem_iff, Option.isSome_iff_ne_none, Ne, AssocMap.get_eq_none_iff,
    not_not]
  rfl

omit [WireFormat] in
/-- Segments are deleted in order: the ones that stay although they could go are newer. -/
theorem lt_of_mem_evictedIds {total id : Nat} {ids : List Nat} (hsorted : ids.Pairwise (· < ·))
    (hmem : id ∈ ids) (hfree : id ∉ store.locks) (hstays : id ∉ store.evictedIds total ids) :
    ∀ other ∈ store.evictedIds total ids, other < id := by
  induction ids generalizing total with
  | nil => cases hmem
  | cons first rest ih =>
      rw [List.pairwise_cons] at hsorted
      rw [evictedIds] at hstays ⊢
      split
      next => exact fun _ hother => absurd hother List.not_mem_nil
      next hover =>
        rw [if_neg hover] at hstays
        split
        next hlocked =>
          rw [if_pos hlocked] at hstays
          refine ih hsorted.2 ((List.mem_cons.mp hmem).resolve_left ?_) hstays
          rintro rfl
          exact hfree (List.contains_iff_mem.mp hlocked)
        next hunlocked =>
          rw [if_neg hunlocked, List.mem_cons, not_or] at hstays
          have hrest := (List.mem_cons.mp hmem).resolve_left hstays.1
          exact List.forall_mem_cons.mpr ⟨hsorted.1 id hrest, ih hsorted.2 hrest hstays.2⟩

theorem WellFormed.evicted_due (h : store.WellFormed)
    (hspares : store.Spares store.totalSize (store.sortedSegments.map Prod.fst)) :
    Evicted store store.dueIds store.checkEviction :=
  h.evicted (sorted_sortedSegments store) (fun _ => mem_sortedSegments.mp) hspares

theorem Evicted.withinLimit (hevicted : Evicted (store.carryOver (nodeHash, data))
      (store.carryOver (nodeHash, data)).dueIds (store.putNode nodeHash data))
    (hfits : (store.carryOver (nodeHash, data)).Fits) : store.WithinLimit (.put nodeHash data) := by
  have hlocks : (store.carryOver (nodeHash, data)).locks = store.locks := by rw [carryOver_eq]
  by_cases hleft : ∀ id, ((store.carryOver (nodeHash, data)).segments.get id).isSome = true →
      id ∈ (store.carryOver (nodeHash, data)).locks ∨
        id ∈ (store.carryOver (nodeHash, data)).dueIds
  · refine .inr fun id contents hget => ?_
    change (store.putNode nodeHash data).segments.get id = some contents at hget
    cases hold : (store.carryOver (nodeHash, data)).segments.get id with
    | some old =>
        rcases hleft id (by rw [hold]; rfl) with hlocked | hdue
        · exact .inl (hlocks ▸ hlocked)
        · rw [hevicted.gone id hdue] at hget
          cases hget
    | none =>
        obtain ⟨base, frames, hcontents, hbase, hframes⟩ := hevicted.grown id contents hget
        have hnil : base = [] := by
          refine hbase.resolve_right fun hsome => ?_
          rw [hold] at hsome
          cases hsome
        rw [hnil, List.nil_append] at hcontents
        refine .inr ⟨hold, fun other hmem => ?_⟩
        rw [hcontents, framesOf_encodeAll fun frame hframe => (hframes frame hframe).1] at hmem
        have hanchor := (hframes other hmem).2
        by_contra hplain
        rw [anchorHash_eq_none_iff.mpr hplain] at hanchor
        cases hanchor
  · have hroom := hfits.resolve_right hleft
    obtain ⟨id, hid⟩ := not_forall.mp hleft
    obtain ⟨hexists, hnot⟩ := Classical.not_imp.mp hid
    obtain ⟨hfree, hstays⟩ := not_or.mp hnot
    have hsize := (hevicted.beside id hexists (lt_of_mem_evictedIds (sorted_sortedSegments _)
      (mem_sortedSegments.mpr hexists) hfree hstays)).2
    refine .inl ?_
    change (store.putNode nodeHash data).totalSize ≤ opaqueTotalMaxSize
    omega

theorem WellFormed.lawful (h : store.WellFormed) {operation : Operation}
    (hharmless : store.Harmless operation) :
    (store.step operation).WellFormed ∧ store.Lawful operation := by
  cases operation with
  | put nodeHash data =>
      obtain ⟨hshort, hspares, hfits⟩ := hharmless nodeHash data rfl
      have hrecorded := h.carryOver nodeHash hshort
      have hevicted : Evicted (store.carryOver (nodeHash, data))
          (store.carryOver (nodeHash, data)).dueIds (store.putNode nodeHash data) :=
        hrecorded.evicted_due hspares
      refine ⟨hevicted.wellFormed, hevicted.wellFormed.sorted, fun other => ?_, ?_⟩
      · rcases hevicted.reads other with hsame | ⟨hnone, record, hmem, heq, hdue, hplain⟩
        · exact .inl (hsame.trans (h.getNode_carryOver nodeHash hshort other))
        · exact .inr ⟨hnone, record, hmem, heq, hevicted.gone _ hdue, fun data hread =>
            anchorHash_eq_none_iff.mp (hplain data hread)⟩
      · rintro _ _ ⟨⟩
        exact hevicted.withinLimit hfits
  | remove nodeHash =>
      refine ⟨h.removeNode nodeHash, (h.removeNode nodeHash).sorted,
        fun other => .inl (h.getNode_removeNode nodeHash other), ?_⟩
      rintro _ _ ⟨⟩
  | lock ids =>
      have hlocked : (store.step (.lock ids)).WellFormed :=
        h.restrict (List.Sublist.refl _) (fun _ _ => id) fun _ _ => rfl
      refine ⟨hlocked, hlocked.sorted, fun other => .inl rfl, ?_⟩
      rintro _ _ ⟨⟩

/-! ## Runs -/

/-- Some operation deletes what was last put under the hash, which is no anchor. -/
def Lapsed (operations : List Operation) (nodeHash : NodeHash) : Prop :=
  ∃ before operation after, operations = before ++ operation :: after ∧
    (runFrom step new before).Lapses operation nodeHash ∧ ∀ data, .put nodeHash data ∉ after

/-- A store that is lawful at every operation reads what was last put, or nothing once this
has lapsed. -/
theorem getNode_of_lawful {operations : List Operation}
    (hlawful : RunMeets step Lawful new operations) (nodeHash : NodeHash) :
    (runFrom step new operations).getNode nodeHash = .ok (lastPut operations nodeHash) ∨
      (runFrom step new operations).getNode nodeHash = .ok none ∧ Lapsed operations nodeHash := by
  induction operations using List.reverseRecOn with
  | nil => exact .inl rfl
  | append_singleton operations operation ih =>
      obtain ⟨hbefore, hstep, -⟩ := runMeets_append.mp hlawful
      have hrun : runFrom step new (operations ++ [operation]) =
          (runFrom step new operations).step operation := runFrom_append _ _ _
      have hput : lastPut (operations ++ [operation]) = note (lastPut operations) operation :=
        List.foldl_append
      have hstays : (∀ data, operation ≠ .put nodeHash data) → Lapsed operations nodeHash →
          Lapsed (operations ++ [operation]) nodeHash := by
        rintro hother ⟨before, lapse, after, rfl, hlapse, hnone⟩
        refine ⟨before, lapse, after ++ [operation], by simp, hlapse, fun data hmem => ?_⟩
        rcases List.mem_append.mp hmem with hmem | hmem
        · exact hnone data hmem
        · exact hother data (List.mem_singleton.mp hmem).symm
      rw [hrun, hput]
      rcases hstep.reads nodeHash with hread | ⟨hnone, hlapse⟩
      · rw [hread]
        have hbefore := ih hbefore
        cases operation with
        | put written data =>
            by_cases heq : nodeHash = written
            · simp [expected, note, heq]
            · rw [expected, if_neg heq, note, Function.update_of_ne heq]
              refine hbefore.imp_right (And.imp_right (hstays ?_))
              rintro _ ⟨⟩
              exact heq rfl
        | remove removed =>
            by_cases heq : nodeHash = removed
            · simp [expected, note, heq]
            · rw [expected, if_neg heq, note, Function.update_of_ne heq]
              exact hbefore.imp_right (And.imp_right (hstays nofun))
        | lock ids => exact hbefore.imp_right (And.imp_right (hstays nofun))
      · exact .inr ⟨hnone, operations, operation, [], rfl, hlapse, fun _ => List.not_mem_nil⟩

/-- In every run whose writes are harmless the store is lawful throughout, and reads what was
last put unless this was evicted. -/
theorem lawful_of_harmless {operations : List Operation}
    (hharmless : RunMeets step Harmless new operations) :
    RunMeets step Lawful new operations ∧
      ∀ nodeHash, (runFrom step new operations).getNode nodeHash =
          .ok (lastPut operations nodeHash) ∨
        (runFrom step new operations).getNode nodeHash = .ok none ∧
          Lapsed operations nodeHash := by
  have hmeets := hharmless.imp_of_invariant WellFormed (fun _ _ h hok => h.lawful hok)
    wellFormed_new
  exact ⟨hmeets, getNode_of_lawful hmeets⟩

/-- While the segments are within their limit writing is harmless. -/
theorem harmless_put (hshort : Short data)
    (hroom : (store.carryOver (nodeHash, data)).totalSize ≤ opaqueTotalMaxSize) :
    store.Harmless (.put nodeHash data) := by
  rintro _ _ ⟨⟩
  generalize store.carryOver (nodeHash, data) = recorded at hroom
  refine ⟨hshort, ?_, ?_⟩
  · cases recorded.sortedSegments.map Prod.fst with
    | nil => trivial
    | cons first rest =>
        rw [Spares, if_pos hroom]
        trivial
  · have hnone : recorded.dueIds = [] := by
      rw [dueIds]
      cases recorded.sortedSegments.map Prod.fst with
      | nil => rfl
      | cons first rest => rw [evictedIds, if_pos hroom]
    simp only [Fits, hnone, List.map_nil, List.sum_nil, Nat.add_zero]
    exact .inl hroom

theorem checkEviction_of_le (hroom : store.totalSize ≤ opaqueTotalMaxSize) :
    store.checkEviction = store := by
  rw [checkEviction]
  cases store.sortedSegments.map Prod.fst with
  | nil => rfl
  | cons first rest => rw [evict, if_pos hroom]

/-- An anchor under another hash than the one that is computed for it is lost with its
segment. -/
theorem WellFormed.getNode_pruneSegment (h : store.WellFormed) {id : Nat}
    (honly : ∀ record ∈ store.index, record.hash = nodeHash → record.segmentId = id)
    (hother : nodeHash ∉ (store.anchorsIn id).map Prod.fst) :
    (store.pruneSegment id).getNode nodeHash = .ok none := by
  refine getNode_of_not_mem fun record hmem heq => ?_
  rcases (h.carriedAnchors id).placed record hmem with hold | hanchor
  · obtain ⟨hold, hne⟩ := mem_dropRecords.mp hold
    exact hne (honly record hold heq)
  · exact hother (heq ▸ hanchor)

end OpaqueStore

namespace OpaqueRuns

open OpaqueStore Reference

/-- A signed wire form. -/
def signed : Bytes := [1, 0x80]

theorem short_signed : Short signed := by
  rw [Short]
  decide

/-! ## A segment that makes room for a large record -/

section Filling

variable {store : OpaqueStore} {contents filler : Bytes}
variable (hsegments : store.segments = AssocMap.empty.insert 1 contents)
variable (hover : opaqueTotalMaxSize < contents.length + (filler.length + 4))

include hsegments hover

/-- The filler goes to a segment of its own. -/
theorem carryOver_filler : store.carryOver (⟨6⟩, filler) =
    { store with
      segments := (AssocMap.empty.insert 1 contents).insert 2 (writeFrame filler)
      index := placeRecord ⟨6⟩ 2 0 store.index } := by
  have hlast : store.sortedSegments.getLast? = some (1, contents) := by
    rw [sortedSegments, hsegments]
    rfl
  have hsegment : store.segmentFor filler.length = 2 := by
    rw [segmentFor, hlast]
    refine if_neg ?_
    unfold opaqueTotalMaxSize at hover
    unfold opaqueSegmentMaxSize
    omega
  have hnone : store.segments.get 2 = none := by
    rw [hsegments]
    rfl
  rw [carryOver_eq, hsegment, hnone, hsegments]
  rfl

variable (hroom : filler.length + 4 ≤ opaqueTotalMaxSize) (hfree : 1 ∉ store.locks)

include hroom hfree

/-- The two take more than the limit, so the first segment is deleted. -/
theorem step_filler : (store.carryOver (⟨6⟩, filler)).totalSize =
      contents.length + (filler.length + 4) ∧
    (store.carryOver (⟨6⟩, filler)).sortedSegments.map Prod.fst = [1, 2] ∧
    (store.carryOver (⟨6⟩, filler)).dueIds = [1] ∧
    store.step (.put ⟨6⟩ filler) = (store.carryOver (⟨6⟩, filler)).pruneSegment 1 := by
  have hrecorded := carryOver_filler hsegments hover
  have hids : (store.carryOver (⟨6⟩, filler)).sortedSegments.map Prod.fst = [1, 2] := by
    rw [hrecorded]
    rfl
  have htotal : (store.carryOver (⟨6⟩, filler)).totalSize =
      contents.length + (filler.length + 4) := by
    rw [totalSize_carryOver, length_writeFrame, totalSize, hsegments]
    rfl
  have hsize : (store.carryOver (⟨6⟩, filler)).segments.get 1 = some contents := by
    rw [hrecorded]
    rfl
  have hlocks : (store.carryOver (⟨6⟩, filler)).locks = store.locks := by rw [hrecorded]
  have hskip : ¬ store.locks.contains 1 = true := by
    rw [List.contains_iff_mem]
    exact hfree
  have hrest : contents.length + (filler.length + 4) - contents.length ≤ opaqueTotalMaxSize := by
    omega
  refine ⟨htotal, hids, ?_, ?_⟩
  · rw [dueIds, hids, htotal, evictedIds, if_neg (by omega), hlocks, if_neg hskip,
      segmentSize, hsize, Option.getD_some, evictedIds, if_pos hrest]
  · change (store.carryOver (⟨6⟩, filler)).checkEviction = _
    rw [checkEviction, hids, htotal, evict, if_neg (by omega), hlocks, if_neg hskip,
      hsize]
    simp only [Option.getD_some]
    rw [evict, if_pos hrest]

end Filling

/-- The hash that is computed for the signed wire form. -/
def signedHash : NodeHash := WireFormat.blake3 (WireFormat.serializeWire (wireOf 1 [0x80]))

/-- The signed wire form under its hash and a byte that is no anchor, with a lock beside a
segment that is still to come. -/
def kept : OpaqueStore :=
  { (new.carryOver (signedHash, signed)).carryOver (⟨7⟩, [0]) with locks := [2] }

/-- The operations that lead there, and a last write. -/
def evicting (filler : Bytes) : List Operation :=
  [.put signedHash signed, .put ⟨7⟩ [0], .lock [2], .put ⟨6⟩ filler]

theorem wellFormed_kept : kept.WellFormed :=
  ((wellFormed_new.carryOver signedHash short_signed).carryOver ⟨7⟩ (by rw [Short]; decide)).restrict
    (List.Sublist.refl _) (fun _ _ => id) fun _ _ => rfl

theorem segments_kept :
    kept.segments = AssocMap.empty.insert 1 (writeFrame signed ++ writeFrame [0]) := rfl

section Kept

variable {filler : Bytes} (hlength : filler.length = opaqueTotalMaxSize - 10)

include hlength

/-- The filler leaves room for the anchor only, which the first segment holds. -/
theorem over_filler : opaqueTotalMaxSize <
      (writeFrame signed ++ writeFrame [0]).length + (filler.length + 4) ∧
    filler.length + 4 ≤ opaqueTotalMaxSize ∧ Short filler := by
  have hcontents : (writeFrame signed ++ writeFrame [0]).length = 11 := rfl
  rw [Short, hlength, hcontents]
  decide

theorem first_filler : (kept.carryOver (⟨6⟩, filler)).segmentSize 1 = 11 ∧
    (kept.carryOver (⟨6⟩, filler)).anchorsIn 1 = [(signedHash, signed)] ∧
    (kept.carryOver (⟨6⟩, filler)).locks = [2] ∧
    ((kept.carryOver (⟨6⟩, filler)).segments.get 2).isSome = true ∧
    (kept.carryOver (⟨6⟩, filler)).index =
      [⟨⟨6⟩, 2, 0⟩, ⟨⟨7⟩, 1, 6⟩, ⟨signedHash, 1, 0⟩] := by
  have hindex : placeRecord ⟨6⟩ 2 0 kept.index =
      [⟨⟨6⟩, 2, 0⟩, ⟨⟨7⟩, 1, 6⟩, ⟨signedHash, 1, 0⟩] := by decide +kernel
  have hanchors : anchorsOf (writeFrame signed ++ writeFrame [0]) = [(signedHash, signed)] := by
    decide +kernel
  rw [carryOver_filler segments_kept (over_filler hlength).1]
  exact ⟨rfl, hanchors, rfl, rfl, hindex⟩

theorem getNode_filler (nodeHash : NodeHash) (hother : nodeHash ≠ ⟨6⟩) :
    (kept.carryOver (⟨6⟩, filler)).getNode nodeHash = kept.getNode nodeHash := by
  rw [wellFormed_kept.getNode_carryOver ⟨6⟩ (over_filler hlength).2.2, if_neg hother]

/-- The anchor is read under its hash before its segment is deleted, and goes behind the
filler. -/
theorem spared_filler : (kept.carryOver (⟨6⟩, filler)).Spared 1 := by
  obtain ⟨-, hanchors, -, hnewer, hindex⟩ := first_filler hlength
  have hsigned : kept.getNode signedHash = .ok (some signed) := by decide +kernel
  have hbyte : kept.getNode ⟨7⟩ = .ok (some [0]) := by decide +kernel
  constructor
  · rintro before anchor ⟨after, hsplit, -⟩
    rw [hanchors] at hsplit
    have hanchor : anchor ∈ [(signedHash, signed)] :=
      hsplit ▸ List.mem_append_right _ List.mem_cons_self
    rw [List.mem_singleton.mp hanchor, getNode_filler hlength signedHash (by decide +kernel)]
    exact ⟨hsigned, .inl ⟨2, by decide, hnewer⟩⟩
  · intro record hmem hsegment data nodeHash hget hhash
    rw [hindex] at hmem
    simp only [List.mem_cons, List.not_mem_nil, or_false] at hmem
    rcases hmem with rfl | rfl | rfl
    · exact absurd hsegment (by decide)
    · rw [getNode_filler hlength ⟨7⟩ (by decide), hbyte] at hget
      cases hget
      have hnone : anchorHash [0] = none := by decide +kernel
      rw [hnone] at hhash
      cases hhash
    · rw [getNode_filler hlength signedHash (by decide +kernel), hsigned] at hget
      cases hget
      exact (Option.some.inj hhash).symm

theorem harmless_filler : kept.Harmless (.put ⟨6⟩ filler) := by
  obtain ⟨hover, hroom, hshort⟩ := over_filler hlength
  obtain ⟨htotal, hids, hdue, -⟩ := step_filler segments_kept hover hroom (by decide)
  obtain ⟨hsize, hanchors, hlocks, -⟩ := first_filler hlength
  have hcontents : (writeFrame signed ++ writeFrame [0]).length = 11 := rfl
  rw [hcontents, hlength] at htotal
  rintro _ _ ⟨⟩
  refine ⟨hshort, ?_, .inl ?_⟩
  · rw [hids, htotal, Spares, if_neg (by decide), hlocks, if_neg (by decide), hsize, Spares,
      if_pos (by decide)]
    exact ⟨spared_filler hlength, trivial⟩
  · rw [htotal, hdue, List.map_singleton, List.map_singleton, hanchors, hsize]
    decide

omit hlength in
theorem step_kept : ((new.step (.put signedHash signed)).step (.put ⟨7⟩ [0])).step (.lock [2]) =
    kept := by
  have hfirst : new.step (.put signedHash signed) = new.carryOver (signedHash, signed) :=
    checkEviction_of_le (by decide +kernel)
  have hsecond : (new.carryOver (signedHash, signed)).step (.put ⟨7⟩ [0]) =
      (new.carryOver (signedHash, signed)).carryOver (⟨7⟩, [0]) :=
    checkEviction_of_le (by decide +kernel)
  rw [hfirst, hsecond]
  rfl

theorem harmless_evicting : RunMeets step Harmless new (evicting filler) := by
  refine ⟨harmless_put short_signed (by decide +kernel), ?_, ?_, ?_, trivial⟩
  · exact harmless_put (by rw [Short]; decide) (by decide +kernel)
  · rintro _ _ ⟨⟩
  · rw [step_kept]
    exact harmless_filler hlength

/-- The anchor is carried over, the byte is gone. -/
theorem getNode_evicting (hlawful : RunMeets step Lawful new (evicting filler)) :
    (runFrom step new (evicting filler)).getNode signedHash = .ok (some signed) ∧
      (runFrom step new (evicting filler)).getNode ⟨7⟩ = .ok none := by
  have hrun : runFrom step new (evicting filler) = kept.step (.put ⟨6⟩ filler) :=
    congrArg (fun store => step store (.put ⟨6⟩ filler)) step_kept
  have hlast : kept.Lawful (.put ⟨6⟩ filler) := by
    rw [← step_kept]
    exact hlawful.2.2.2.1
  have hsigned : kept.getNode signedHash = .ok (some signed) := by decide +kernel
  have hne : signedHash ≠ ⟨6⟩ := by decide +kernel
  obtain ⟨-, hanchors, -, -, hindex⟩ := first_filler hlength
  obtain ⟨hover, hroom, hshort⟩ := over_filler hlength
  rw [hrun]
  constructor
  · rcases hlast.reads signedHash with hsame | ⟨-, record, -, -, -, hplain⟩
    · rw [hsame, expected, if_neg hne, hsigned]
    · have hread := (getNode_filler hlength signedHash hne).trans hsigned
      exact absurd ⟨wireOf 1 [0x80], rfl, rfl⟩ (hplain signed hread)
  · obtain ⟨-, -, -, hstep⟩ := step_filler segments_kept hover hroom (by decide)
    rw [hstep]
    refine (wellFormed_kept.carryOver ⟨6⟩ hshort).getNode_pruneSegment ?_ ?_
    · rw [hindex]
      decide +kernel
    · rw [hanchors]
      decide +kernel

end Kept

/-- A record that leaves room for the anchor only. -/
theorem lawful_evicting :
    RunMeets step Lawful new (evicting (List.replicate (opaqueTotalMaxSize - 10) 0)) ∧
      (runFrom step new (evicting (List.replicate (opaqueTotalMaxSize - 10) 0))).getNode
        signedHash = .ok (some signed) ∧
      (runFrom step new (evicting (List.replicate (opaqueTotalMaxSize - 10) 0))).getNode ⟨7⟩ =
        .ok none := by
  have hlength : (List.replicate (opaqueTotalMaxSize - 10) (0 : UInt8)).length =
      opaqueTotalMaxSize - 10 := List.length_replicate
  have hlawful := (lawful_of_harmless (harmless_evicting hlength)).1
  exact ⟨hlawful, getNode_evicting hlength hlawful⟩

/-! ## An anchor under another hash -/

def anchored : OpaqueStore := new.carryOver (⟨5⟩, signed)

theorem wellFormed_anchored : anchored.WellFormed := wellFormed_new.carryOver ⟨5⟩ short_signed

theorem step_anchored : new.step (.put ⟨5⟩ signed) = anchored :=
  checkEviction_of_le (by decide)

theorem not_lawful_filler {filler : Bytes} (hlength : filler.length = opaqueTotalMaxSize - 4) :
    ¬ anchored.Lawful (.put ⟨6⟩ filler) := by
  have hshort : Short filler := by
    rw [Short, hlength]
    decide
  have hsegments : anchored.segments = AssocMap.empty.insert 1 (writeFrame signed) := rfl
  have hroom : filler.length + 4 ≤ opaqueTotalMaxSize := by
    rw [hlength]
    decide
  have hover : opaqueTotalMaxSize < (writeFrame signed).length + (filler.length + 4) := by
    rw [hlength]
    decide
  have hrecord := carryOver_filler hsegments hover
  have hread : anchored.getNode ⟨5⟩ = .ok (some signed) := by decide +kernel
  have hrecorded : (anchored.carryOver (⟨6⟩, filler)).getNode ⟨5⟩ = .ok (some signed) := by
    rw [wellFormed_anchored.getNode_carryOver ⟨6⟩ hshort, if_neg (by decide), hread]
  have hlost : (anchored.step (.put ⟨6⟩ filler)).getNode ⟨5⟩ = .ok none := by
    rw [(step_filler hsegments hover hroom List.not_mem_nil).2.2.2]
    refine (wellFormed_anchored.carryOver ⟨6⟩ hshort).getNode_pruneSegment ?_ ?_
    · rw [hrecord]
      change ∀ record ∈ placeRecord ⟨6⟩ 2 0 anchored.index, record.hash = ⟨5⟩ → record.segmentId = 1
      decide +kernel
    · have hanchors : (anchored.carryOver (⟨6⟩, filler)).anchorsIn 1 =
          anchorsOf (writeFrame signed) := by
        rw [hrecord]
        rfl
      rw [hanchors]
      decide +kernel
  intro hlawful
  rcases hlawful.reads ⟨5⟩ with hsame | ⟨-, record, -, -, -, hplain⟩
  · rw [hlost, expected, if_neg (by decide), hread] at hsame
    cases hsame
  · exact hplain signed hrecorded ⟨wireOf 1 [0x80], rfl, rfl⟩

/-- An anchor whose hash is not that of its wire form is lost once its segment is evicted. -/
theorem anchor_lost : ¬ RunMeets step Lawful new [.put ⟨5⟩ signed,
    .put ⟨6⟩ (List.replicate (opaqueTotalMaxSize - 4) 0)] := by
  rintro ⟨-, hlawful, -⟩
  rw [step_anchored] at hlawful
  exact not_lawful_filler List.length_replicate hlawful

end OpaqueRuns

end MerkleTox.Fs
