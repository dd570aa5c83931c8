import MerkleTox.Fs.Segments
import MerkleTox.Library.Run

/-! # Eviction of opaque segments

Evicting a segment writes the anchors found in it to the newest segment, under hashes
that are computed anew. When this keeps what the store reads.
-/

namespace MerkleTox.Fs

open Library Proto MerkleTox.Core

variable {contents data : Bytes} {nodeHash : NodeHash} {segmentId total : Nat}

namespace OpaqueStore

variable [WireFormat] {store : OpaqueStore}

/-! ## Anchors -/

variable {anchor : NodeHash × Bytes} {id : Nat} {middle after : OpaqueStore}
variable {record : OpaqueIndexRecord} {ids : List Nat}

theorem mem_anchorsOf {frames : List Bytes} (hshort : ∀ data ∈ frames, Short data) :
    anchor ∈ anchorsOf (encodeAll writeFrame frames) ↔
      anchor.2 ∈ frames ∧ anchorHash anchor.2 = some anchor.1 := by
  rw [anchorsOf, framesOf_encodeAll hshort, List.mem_filterMap]
  constructor
  · rintro ⟨data, hmem, hanchor⟩
    obtain ⟨nodeHash, hhash, rfl⟩ := Option.map_eq_some_iff.mp hanchor
    exact ⟨hmem, hhash⟩
  · rintro ⟨hmem, hhash⟩
    exact ⟨anchor.2, hmem, by rw [hhash]; rfl⟩

theorem WellFormed.anchors (h : store.WellFormed) (hget : store.segments.get id = some contents)
    (hmem : anchor ∈ anchorsOf contents) :
    Short anchor.2 ∧ anchorHash anchor.2 = some anchor.1 := by
  obtain ⟨frames, rfl, hshort⟩ := h.framed id contents hget
  obtain ⟨hframe, hhash⟩ := (mem_anchorsOf hshort).mp hmem
  exact ⟨hshort _ hframe, hhash⟩

variable {anchors : List (NodeHash × Bytes)}

/-- The room that anchors take where they are carried. -/
def framesSize (anchors : List (NodeHash × Bytes)) : Nat :=
  (anchors.map fun anchor => (writeFrame anchor.2).length).sum

/-- The segments are older ones, or new, with records of the kind behind them. -/
def Grown (store after : OpaqueStore) (kind : Bytes → Prop) : Prop :=
  ∀ id contents, after.segments.get id = some contents → ∃ base frames,
    contents = base ++ encodeAll writeFrame frames ∧
      (base = [] ∨ store.segments.get id = some base) ∧ ∀ data ∈ frames, kind data

omit [WireFormat] in
theorem Grown.refl {after : OpaqueStore} (hsame : ∀ id contents,
    after.segments.get id = some contents → store.segments.get id = some contents)
    (kind : Bytes → Prop) : Grown store after kind := fun id contents hget =>
  ⟨contents, [], (List.append_nil _).symm, .inr (hsame id contents hget),
    fun _ hmem => absurd hmem List.not_mem_nil⟩

omit [WireFormat] in
theorem Grown.imp {after : OpaqueStore} {kind kind' : Bytes → Prop} (h : Grown store after kind)
    (himp : ∀ data, kind data → kind' data) : Grown store after kind' := fun id contents hget => by
  obtain ⟨base, frames, hcontents, hbase, hframes⟩ := h id contents hget
  exact ⟨base, frames, hcontents, hbase, fun data hmem => himp data (hframes data hmem)⟩

omit [WireFormat] in
theorem Grown.trans {kind : Bytes → Prop} (hfirst : Grown store middle kind)
    (hsecond : Grown middle after kind) : Grown store after kind := fun id contents hget => by
  obtain ⟨middleBase, later, hcontents, hmiddle | hmiddle, hlater⟩ := hsecond id contents hget
  · exact ⟨middleBase, later, hcontents, .inl hmiddle, hlater⟩
  · obtain ⟨base, earlier, hbase, hfrom, hearlier⟩ := hfirst id middleBase hmiddle
    refine ⟨base, earlier ++ later, ?_, hfrom, fun data hmem => ?_⟩
    · rw [hcontents, hbase, encodeAll_append, List.append_assoc]
    · exact (List.mem_append.mp hmem).elim (hearlier data) (hlater data)

/-- What carrying anchors over changes: every write goes beyond the segments there are, but
for the newest. -/
structure Carried (store : OpaqueStore) (anchors : List (NodeHash × Bytes))
    (after : OpaqueStore) : Prop where
  wellFormed : after.WellFormed
  locks : after.locks = store.locks
  reads : ∀ nodeHash, nodeHash ∉ anchors.map Prod.fst →
    after.getNode nodeHash = store.getNode nodeHash
  old : ∀ newest, (store.segments.get newest).isSome = true → ∀ id < newest,
    after.segments.get id = store.segments.get id
  kept : ∀ id, (store.segments.get id).isSome = true → (after.segments.get id).isSome = true
  placed : ∀ record ∈ after.index, record ∈ store.index ∨ record.hash ∈ anchors.map Prod.fst
  grown : Grown store after fun data => data ∈ anchors.map Prod.snd
  size : after.totalSize = store.totalSize + framesSize anchors

omit [WireFormat] in
theorem totalSize_carryOver (store : OpaqueStore) (nodeHash : NodeHash) (data : Bytes) :
    (store.carryOver (nodeHash, data)).totalSize = store.totalSize + (writeFrame data).length := by
  rw [carryOver_eq, totalSize, totalSize]
  have htotal := store.segments.total_insert (fun _ contents => contents.length)
    (store.segmentFor data.length)
    ((store.segments.get (store.segmentFor data.length)).getD [] ++ writeFrame data)
  rw [List.length_append, AssocMap.weightAt] at htotal
  dsimp only
  cases hget : store.segments.get (store.segmentFor data.length) with
  | none =>
      simp only [hget, Option.elim_none, Option.getD_none, List.length_nil] at htotal ⊢
      omega
  | some contents =>
      simp only [hget, Option.elim_some, Option.getD_some] at htotal ⊢
      omega

omit [WireFormat] in
theorem WellFormed.carried_one (h : store.WellFormed) (nodeHash : NodeHash) (hshort : Short data) :
    Carried store [(nodeHash, data)] (store.carryOver (nodeHash, data)) where
  wellFormed := h.carryOver nodeHash hshort
  locks := by rw [carryOver_eq]
  reads other hne := by
    rw [h.getNode_carryOver nodeHash hshort, if_neg]
    exact fun heq => hne (List.mem_singleton.mpr heq)
  old newest hnewest id hlt := by
    obtain ⟨contents, hcontents⟩ := Option.isSome_iff_exists.mp hnewest
    have hle := le_segmentFor hcontents data.length
    rw [segments_carryOver, if_neg (by omega)]
  kept id hsome := by
    rw [segments_carryOver]
    split
    · rfl
    · exact hsome
  placed record hmem := by
    rw [carryOver_eq] at hmem
    rcases mem_placeRecord.mp hmem with rfl | ⟨hold, -⟩
    · exact .inr List.mem_cons_self
    · exact .inl hold
  grown id contents hget := by
    rw [segments_carryOver] at hget
    split at hget
    next =>
      refine ⟨(store.segments.get id).getD [], [data], ?_, ?_, fun _ hmem => hmem⟩
      · rw [encodeAll_cons, encodeAll_nil, List.append_nil, Option.some.inj hget]
      · cases store.segments.get id with
        | none => exact .inl rfl
        | some old => exact .inr rfl
    next => exact Grown.refl (fun _ _ hsame => hsame) _ id contents hget
  size := by
    rw [totalSize_carryOver, framesSize, List.map_singleton, List.sum_singleton]

omit [WireFormat] in
theorem Carried.trans {first second : List (NodeHash × Bytes)} (hfirst : Carried store first middle)
    (hsecond : Carried middle second after) :
    Carried store (first ++ second) after where
  wellFormed := hsecond.wellFormed
  locks := hsecond.locks.trans hfirst.locks
  reads nodeHash hnot := by
    rw [List.map_append, List.mem_append, not_or] at hnot
    exact (hsecond.reads _ hnot.2).trans (hfirst.reads _ hnot.1)
  old newest hnewest id hlt :=
    (hsecond.old newest (hfirst.kept _ hnewest) id hlt).trans (hfirst.old newest hnewest id hlt)
  kept id hsome := hsecond.kept id (hfirst.kept id hsome)
  placed record hmem := by
    rw [List.map_append, List.mem_append]
    rcases hsecond.placed record hmem with hmem | hnew
    · exact (hfirst.placed record hmem).imp_right .inl
    · exact .inr (.inr hnew)
  grown := by
    rw [List.map_append]
    refine (hfirst.grown.imp fun _ => ?_).trans (hsecond.grown.imp fun _ => ?_)
    · exact List.mem_append_left _
    · exact List.mem_append_right _
  size := by
    rw [hsecond.size, hfirst.size, framesSize, framesSize, framesSize, List.map_append,
      List.sum_append, Nat.add_assoc]

omit [WireFormat] in
theorem WellFormed.carried (h : store.WellFormed) (hshort : ∀ anchor ∈ anchors, Short anchor.2) :
    Carried store anchors (anchors.foldl OpaqueStore.carryOver store) := by
  induction anchors generalizing store with
  | nil =>
      exact ⟨h, rfl, fun _ _ => rfl, fun _ _ _ _ => rfl, fun _ => id, fun _ => .inl,
        Grown.refl (fun _ _ => id) _, rfl⟩
  | cons first rest ih =>
      rw [List.forall_mem_cons] at hshort
      have hfirst := h.carried_one first.1 hshort.1
      exact hfirst.trans (ih hfirst.wellFormed hshort.2)

omit [WireFormat] in
/-- The last anchor of each hash. -/
def LastOf (anchors : List (NodeHash × Bytes)) (before : List (NodeHash × Bytes))
    (anchor : NodeHash × Bytes) : Prop :=
  ∃ after, anchors = before ++ anchor :: after ∧ anchor.1 ∉ after.map Prod.fst

omit [WireFormat] in
theorem LastOf.cons {before : List (NodeHash × Bytes)} (h : LastOf anchors before anchor)
    (first : NodeHash × Bytes) : LastOf (first :: anchors) (first :: before) anchor := by
  obtain ⟨after, rfl, hlast⟩ := h
  exact ⟨after, rfl, hlast⟩

omit [WireFormat] in
/-- Anchors that are carried over are read under their hashes, whatever was there. -/
theorem WellFormed.getNode_carried (h : store.WellFormed)
    (hshort : ∀ anchor ∈ anchors, Short anchor.2) (hmem : nodeHash ∈ anchors.map Prod.fst) :
    ∃ before anchor, LastOf anchors before anchor ∧ anchor.1 = nodeHash ∧
      (anchors.foldl OpaqueStore.carryOver store).getNode nodeHash = .ok (some anchor.2) := by
  induction anchors generalizing store with
  | nil => cases hmem
  | cons first rest ih =>
      rw [List.forall_mem_cons] at hshort
      have hfirst := h.carryOver first.1 hshort.1
      by_cases hrest : nodeHash ∈ rest.map Prod.fst
      · obtain ⟨before, anchor, hlast, heq, hread⟩ := ih hfirst hshort.2 hrest
        exact ⟨first :: before, anchor, hlast.cons first, heq, hread⟩
      · rw [List.map_cons, List.mem_cons] at hmem
        have heq := hmem.resolve_right hrest
        refine ⟨[], first, ⟨rest, rfl, heq ▸ hrest⟩, heq.symm, ?_⟩
        rw [List.foldl_cons, (hfirst.carried hshort.2).reads _ hrest,
          h.getNode_carryOver first.1 hshort.1, if_pos heq]

omit [WireFormat] in
/-- A segment that there is takes a record if it is the newest and has room for it. -/
theorem segmentFor_eq {length id : Nat} (hexists : (store.segments.get id).isSome = true)
    (heq : store.segmentFor length = id) :
    (∀ other, (store.segments.get other).isSome = true → other ≤ id) ∧
      ((store.segments.get id).getD []).length + length + 4 ≤ opaqueSegmentMaxSize := by
  obtain ⟨contents, hcontents⟩ := Option.isSome_iff_exists.mp hexists
  unfold segmentFor at heq
  cases hlast : store.sortedSegments.getLast? with
  | none =>
      rw [segments_of_getLast?_none hlast] at hcontents
      cases hcontents
  | some newest =>
      obtain ⟨hget, hnewest⟩ := getLast?_sortedSegments hlast
      rw [hlast] at heq
      dsimp only at heq
      split at heq
      next hroom =>
        rw [heq] at hget hnewest
        refine ⟨fun other hsome => ?_, by rwa [hget]⟩
        obtain ⟨contents', hget'⟩ := Option.isSome_iff_exists.mp hsome
        exact hnewest other contents' hget'
      next =>
        have hle := hnewest id contents hcontents
        omega

omit [WireFormat] in
/-- A record of an old segment was there, or it is that of the last anchor of its hash, and
the segment is the newest and has room for the anchors up to this one. -/
theorem mem_index_carried (store : OpaqueStore) (hexists : (store.segments.get id).isSome = true)
    (hmem : record ∈ (anchors.foldl OpaqueStore.carryOver store).index)
    (hid : record.segmentId = id) :
    record ∈ store.index ∧ record.hash ∉ anchors.map Prod.fst ∨
      (∀ other, (store.segments.get other).isSome = true → other ≤ id) ∧
        ∃ before anchor, LastOf anchors before anchor ∧
          ((store.segments.get id).getD []).length + framesSize (before ++ [anchor]) ≤
            opaqueSegmentMaxSize := by
  induction anchors generalizing store with
  | nil => exact .inl ⟨hmem, List.not_mem_nil⟩
  | cons first rest ih =>
      have hkept : ∀ other, (store.segments.get other).isSome = true →
          ((store.carryOver first).segments.get other).isSome = true := by
        intro other hsome
        rw [segments_carryOver]
        split
        · rfl
        · exact hsome
      have hsize : (writeFrame first.2).length = first.2.length + 4 := length_writeFrame _
      rcases ih (store.carryOver first) (hkept id hexists) hmem with
        ⟨hmem', hnot⟩ | ⟨hnewest, before, anchor, hlast, hroom⟩
      · rw [carryOver_eq] at hmem'
        rcases mem_placeRecord.mp hmem' with rfl | ⟨hold, hne⟩
        · obtain ⟨hnewest, hroom⟩ := segmentFor_eq hexists hid
          refine .inr ⟨hnewest, [], first, ⟨rest, rfl, hnot⟩, ?_⟩
          simp only [framesSize, List.nil_append, List.map_singleton, List.sum_singleton]
          omega
        · refine .inl ⟨hold, fun hmem => ?_⟩
          rw [List.map_cons, List.mem_cons] at hmem
          exact hmem.elim hne hnot
      · have hwritten : ((store.carryOver first).segments.get
            (store.segmentFor first.2.length)).isSome = true := by
          rw [segments_carryOver, if_pos rfl]
          rfl
        obtain ⟨contents, hcontents⟩ := Option.isSome_iff_exists.mp hexists
        have heq : id = store.segmentFor first.2.length :=
          le_antisymm (le_segmentFor hcontents _) (hnewest _ hwritten)
        refine .inr ⟨fun other hsome => hnewest other (hkept other hsome), first :: before, anchor,
          hlast.cons first, ?_⟩
        rw [segments_carryOver, if_pos heq, Option.getD_some, List.length_append] at hroom
        simp only [framesSize, List.cons_append, List.map_cons, List.sum_cons] at hroom ⊢
        omega

/-! ## Evicting segments -/

/-- The length of a segment. -/
def segmentSize (store : OpaqueStore) (id : Nat) : Nat :=
  ((store.segments.get id).getD []).length

def anchorsIn (store : OpaqueStore) (id : Nat) : List (NodeHash × Bytes) :=
  anchorsOf ((store.segments.get id).getD [])

/-- Deleting a segment loses no anchor: the last anchor of each hash is what the store reads
there and goes to another segment, as there is a newer one or none of the anchors up to it
fits behind the segment; and every anchor has a hash that is computed for it. -/
structure Spared (store : OpaqueStore) (id : Nat) : Prop where
  last : ∀ before anchor, LastOf (store.anchorsIn id) before anchor →
    store.getNode anchor.1 = .ok (some anchor.2) ∧
      ((∃ newer, id < newer ∧ (store.segments.get newer).isSome = true) ∨
        opaqueSegmentMaxSize < store.segmentSize id + framesSize (before ++ [anchor]))
  keyed : ∀ record ∈ store.index, record.segmentId = id → ∀ data nodeHash,
    store.getNode record.hash = .ok (some data) → anchorHash data = some nodeHash →
      nodeHash = record.hash

/-- A read gives what it gave before, or nothing where the record was in one of the segments
and is no anchor. -/
def ReadsOn (store : OpaqueStore) (ids : List Nat) (after : OpaqueStore)
    (nodeHash : NodeHash) : Prop :=
  after.getNode nodeHash = store.getNode nodeHash ∨
    after.getNode nodeHash = .ok none ∧ ∃ record ∈ store.index, record.hash = nodeHash ∧
      record.segmentId ∈ ids ∧
        ∀ data, store.getNode nodeHash = .ok (some data) → anchorHash data = none

/-- What deleting the segments changes. -/
structure Evicted (store : OpaqueStore) (ids : List Nat) (after : OpaqueStore) : Prop where
  wellFormed : after.WellFormed
  locks : after.locks = store.locks
  reads : ∀ nodeHash, ReadsOn store ids after nodeHash
  placed : ∀ record ∈ after.index, record ∈ store.index ∨
    ∃ data, after.getNode record.hash = .ok (some data) ∧ (anchorHash data).isSome = true
  gone : ∀ id ∈ ids, after.segments.get id = none
  below : ∀ id, (∀ other ∈ ids, id < other) → after.segments.get id = store.segments.get id
  kept : ∀ id ∉ ids, (store.segments.get id).isSome = true →
    (after.segments.get id).isSome = true
  grown : Grown store after fun data => Short data ∧ (anchorHash data).isSome = true
  beside : ∀ newer, (store.segments.get newer).isSome = true → (∀ id ∈ ids, id < newer) →
    (∀ id < newer, id ∉ ids → after.segments.get id = store.segments.get id) ∧
      after.totalSize + (ids.map store.segmentSize).sum =
        store.totalSize + (ids.map fun id => framesSize (store.anchorsIn id)).sum

theorem Evicted.refl (h : store.WellFormed) : Evicted store [] store where
  wellFormed := h
  locks := rfl
  reads _ := .inl rfl
  placed _ := .inl
  gone _ hmem := absurd hmem List.not_mem_nil
  below _ _ := rfl
  kept _ _ := id
  grown := Grown.refl (fun _ _ => id) _
  beside _ _ _ := ⟨fun _ _ _ => rfl, rfl⟩

theorem ReadsOn.trans (hfirst : Evicted store [id] middle)
    (hsecond : ReadsOn middle ids after nodeHash) : ReadsOn store (id :: ids) after nodeHash := by
  rcases hfirst.reads nodeHash with hsame | ⟨hnone, known, hknown, hname, hin, hplain⟩
  · rcases hsecond with hsame' | ⟨hnone', record, hmem, rfl, hid, hplain⟩
    · exact .inl (hsame'.trans hsame)
    · refine .inr ⟨hnone', record, ?_, rfl, List.mem_cons_of_mem _ hid, fun data hread =>
        hplain data (hsame.trans hread)⟩
      refine (hfirst.placed record hmem).resolve_right ?_
      rintro ⟨data, hread, hanchor⟩
      rw [hplain data hread] at hanchor
      cases hanchor
  · have hnone' : after.getNode nodeHash = .ok none := by
      rcases hsecond with hsame' | ⟨hnone', -⟩
      · exact hsame'.trans hnone
      · exact hnone'
    exact .inr ⟨hnone', known, hknown, hname,
      List.mem_cons.mpr (.inl (List.mem_singleton.mp hin)), hplain⟩

theorem Evicted.trans (hfirst : Evicted store [id] middle) (hsecond : Evicted middle ids after)
    (hlater : ∀ other ∈ ids, id < other) : Evicted store (id :: ids) after where
  wellFormed := hsecond.wellFormed
  locks := hsecond.locks.trans hfirst.locks
  reads nodeHash := (hsecond.reads nodeHash).trans hfirst
  placed record hmem := by
    rcases hsecond.placed record hmem with hmem' | hnew
    · refine (hfirst.placed record hmem').imp_right ?_
      rintro ⟨data, hread, hanchor⟩
      rcases hsecond.reads record.hash with hsame | ⟨-, -, -, -, -, hplain⟩
      · exact ⟨data, hsame.trans hread, hanchor⟩
      · rw [hplain data hread] at hanchor
        cases hanchor
    · exact .inr hnew
  gone other hmem := by
    rcases List.mem_cons.mp hmem with rfl | hmem
    · exact (hsecond.below other hlater).trans (hfirst.gone other List.mem_cons_self)
    · exact hsecond.gone other hmem
  below other hbelow := by
    rw [List.forall_mem_cons] at hbelow
    exact (hsecond.below other hbelow.2).trans
      (hfirst.below other (List.forall_mem_singleton.mpr hbelow.1))
  kept other hnot hsome := by
    rw [List.mem_cons, not_or] at hnot
    exact hsecond.kept other hnot.2
      (hfirst.kept other (fun hmem => hnot.1 (List.mem_singleton.mp hmem)) hsome)
  grown := hfirst.grown.trans hsecond.grown
  -- A segment newer than both sees the sum of what the two evictions free and carry.
  beside newer hnewer hids := by
    rw [List.forall_mem_cons] at hids
    have hother : ∀ other, id < other → other ∉ [id] := fun other hlt hmem =>
      hlt.ne' (List.mem_singleton.mp hmem)
    obtain ⟨hsame, hone⟩ := hfirst.beside newer hnewer (List.forall_mem_singleton.mpr hids.1)
    obtain ⟨hsame', hrest⟩ :=
      hsecond.beside newer (hfirst.kept newer (hother newer hids.1) hnewer) hids.2
    constructor
    · intro other hlt hnot
      rw [List.mem_cons, not_or] at hnot
      exact (hsame' other hlt hnot.2).trans
        (hsame other hlt fun hmem => hnot.1 (List.mem_singleton.mp hmem))
    · have hget : ∀ other ∈ ids, middle.segments.get other = store.segments.get other :=
        fun other hmem => hsame other (hids.2 other hmem) (hother other (hlater other hmem))
      have hsizes : ids.map middle.segmentSize = ids.map store.segmentSize :=
        List.map_congr_left fun other hmem => by rw [segmentSize, hget other hmem, segmentSize]
      have hcarried : (ids.map fun other => framesSize (middle.anchorsIn other)) =
          ids.map fun other => framesSize (store.anchorsIn other) :=
        List.map_congr_left fun other hmem => by rw [anchorsIn, hget other hmem, anchorsIn]
      rw [hsizes, hcarried] at hrest
      rw [List.map_singleton, List.map_singleton, List.sum_singleton, List.sum_singleton] at hone
      rw [List.map_cons, List.map_cons, List.sum_cons, List.sum_cons]
      omega

/-- A record that is found in the segment and is an anchor is among its anchors. -/
theorem WellFormed.mem_anchorsIn (h : store.WellFormed) (hmem : record ∈ store.index)
    (hread : store.getNode record.hash = .ok (some data))
    (hhash : anchorHash data = some nodeHash) :
    (nodeHash, data) ∈ store.anchorsIn record.segmentId := by
  obtain ⟨found, hresolves⟩ := h.resolved record hmem
  have hfound : found = data := by
    rw [h.getNode_of_mem hmem hresolves] at hread
    exact Option.some.inj (Except.ok.inj hread)
  obtain ⟨before, after, hget, hshort, -⟩ := hresolves
  rw [anchorsIn, hget, Option.getD_some]
  refine (mem_anchorsOf hshort).mpr ⟨?_, hhash⟩
  rw [hfound]
  exact List.mem_append_right _ List.mem_cons_self

theorem WellFormed.anchorsIn (h : store.WellFormed) (hmem : anchor ∈ store.anchorsIn id) :
    (store.segments.get id).isSome = true ∧ Short anchor.2 ∧
      anchorHash anchor.2 = some anchor.1 := by
  rw [OpaqueStore.anchorsIn] at hmem
  cases hget : store.segments.get id with
  | none =>
      rw [hget] at hmem
      cases hmem
  | some contents =>
      rw [hget] at hmem
      exact ⟨rfl, h.anchors hget hmem⟩

/-- The index without the records of a segment. -/
def dropRecords (store : OpaqueStore) (segmentId : Nat) : OpaqueStore :=
  { store with index := store.index.filter fun record => record.segmentId ≠ segmentId }

/-- The anchors of a segment carried over, and its other records dropped. -/
def carryAnchors (store : OpaqueStore) (segmentId : Nat) : OpaqueStore :=
  (store.anchorsIn segmentId).foldl OpaqueStore.carryOver (store.dropRecords segmentId)

/-- The segments but for one. -/
def eraseSegment (store : OpaqueStore) (segmentId : Nat) : OpaqueStore :=
  { store with segments := store.segments.erase segmentId }

theorem pruneSegment_eq (store : OpaqueStore) (segmentId : Nat) :
    store.pruneSegment segmentId = (store.carryAnchors segmentId).eraseSegment segmentId := rfl

omit [WireFormat] in
theorem mem_dropRecords :
    record ∈ (store.dropRecords segmentId).index ↔
      record ∈ store.index ∧ record.segmentId ≠ segmentId := by
  simp [dropRecords]

section

variable (h : store.WellFormed)
include h

omit [WireFormat] in
theorem WellFormed.dropRecords (segmentId : Nat) :
    (store.dropRecords segmentId).WellFormed :=
  h.restrict List.filter_sublist (fun _ _ => id) fun _ _ => rfl

omit [WireFormat] in
/-- Without a segment that no record names the store reads as before. -/
theorem WellFormed.eraseSegment (hunnamed : ∀ record ∈ store.index, record.segmentId ≠ segmentId) :
    (store.eraseSegment segmentId).WellFormed ∧
      ∀ nodeHash, (store.eraseSegment segmentId).getNode nodeHash = store.getNode nodeHash := by
  have hindex : (store.eraseSegment segmentId).index.Sublist store.index := List.Sublist.refl _
  have hneeded : ∀ record ∈ (store.eraseSegment segmentId).index,
      (store.eraseSegment segmentId).segments.get record.segmentId =
        store.segments.get record.segmentId := fun record hmem =>
    AssocMap.get_erase_of_ne _ (hunnamed record hmem)
  have hkept : (store.eraseSegment segmentId).WellFormed := by
    refine h.restrict hindex (fun id contents hget => ?_) hneeded
    exact (AssocMap.get_of_erase hget).2
  refine ⟨hkept, fun nodeHash => ?_⟩
  obtain ⟨hread, -⟩ | ⟨-, record, hmem, -, hnot⟩ :=
    h.getNode_restrict hindex hneeded hkept nodeHash
  · exact hread
  · exact absurd hmem hnot

theorem WellFormed.carriedAnchors (id : Nat) :
    Carried (store.dropRecords id) (store.anchorsIn id) (store.carryAnchors id) :=
  (h.dropRecords id).carried fun _ hmem => (h.anchorsIn hmem).2.1

/-- Of a segment that is spared anchors are carried over, and only other records are lost. -/
theorem WellFormed.reads_carried (hspared : Spared store id) (nodeHash : NodeHash) :
    ReadsOn store [id] (store.carryAnchors id) nodeHash := by
  by_cases hanchor : nodeHash ∈ (store.anchorsIn id).map Prod.fst
  · obtain ⟨before, anchor, hlast, rfl, hread⟩ := (h.dropRecords id).getNode_carried
      (fun _ hmem => (h.anchorsIn hmem).2.1) hanchor
    exact .inl (hread.trans (hspared.last before anchor hlast).1.symm)
  · have hread := (h.carriedAnchors id).reads nodeHash hanchor
    have hindex : (store.dropRecords id).index.Sublist store.index := List.filter_sublist
    obtain ⟨hsame, -⟩ | ⟨hnone, record, hmem, rfl, hnot⟩ :=
      h.getNode_restrict hindex (fun _ _ => rfl) (h.dropRecords id) nodeHash
    · exact .inl (hread.trans hsame)
    · have hid : record.segmentId = id := by
        by_contra hne
        exact hnot (mem_dropRecords.mpr ⟨hmem, hne⟩)
      refine .inr ⟨hread.trans hnone, record, hmem, rfl, List.mem_singleton.mpr hid, ?_⟩
      intro data hdata
      by_contra hsome
      obtain ⟨other, hother⟩ := Option.ne_none_iff_exists'.mp hsome
      have hfound := h.mem_anchorsIn hmem hdata hother
      rw [hspared.keyed record hmem hid data other hdata hother, hid] at hfound
      exact hanchor (List.mem_map_of_mem hfound)

/-- No record names the segment once its anchors are carried over. -/
theorem WellFormed.unnamed (hspared : Spared store id) :
    ∀ record ∈ (store.carryAnchors id).index, record.segmentId ≠ id := by
  intro record hmem hid
  by_cases hexists : (store.segments.get id).isSome = true
  · obtain ⟨hold, -⟩ | ⟨hnewest, before, anchor, hlast, hroom⟩ :=
      mem_index_carried (store.dropRecords id) hexists hmem hid
    · exact (mem_dropRecords.mp hold).2 hid
    · obtain ⟨newer, hlt, hnewer⟩ | hfull := (hspared.last before anchor hlast).2
      · exact absurd (hnewest newer hnewer) (by omega)
      · rw [segmentSize] at hfull
        exact absurd (hroom.trans_lt hfull) (lt_irrefl _)
  · rcases (h.carriedAnchors id).placed record hmem with hold | hanchor
    · exact (mem_dropRecords.mp hold).2 hid
    · obtain ⟨anchor, hanchor, -⟩ := List.mem_map.mp hanchor
      exact hexists (h.anchorsIn hanchor).1

theorem WellFormed.evicted_one (hspared : Spared store id) :
    Evicted store [id] (store.pruneSegment id) := by
  -- First the anchors of the segment are carried over, then the segment is erased; no location
  -- names it any more.
  have hcarried := h.carriedAnchors id
  obtain ⟨hkept, hsame⟩ := hcarried.wellFormed.eraseSegment (h.unnamed hspared)
  have hreads : ∀ nodeHash, ReadsOn store [id] ((store.carryAnchors id).eraseSegment id)
      nodeHash := by
    intro nodeHash
    rw [ReadsOn, hsame]
    exact h.reads_carried hspared nodeHash
  have herased : ∀ other, other ≠ id →
      ((store.carryAnchors id).eraseSegment id).segments.get other =
        (store.carryAnchors id).segments.get other := fun other hne =>
    AssocMap.get_erase_of_ne _ hne
  have hgone : ((store.carryAnchors id).eraseSegment id).segments.get id = none :=
    AssocMap.get_erase_self _ _
  -- Carrying appends to the newest segment only.
  have hbelow : ∀ newest, (store.segments.get newest).isSome = true → ∀ other < newest,
      (store.carryAnchors id).segments.get other = store.segments.get other := hcarried.old
  rw [pruneSegment_eq]
  refine ⟨hkept, hcarried.locks, hreads, ?_, ?_, ?_, ?_, ?_, ?_⟩
  · intro record hmem
    rcases hcarried.placed record hmem with hold | hanchor
    · exact .inl (mem_dropRecords.mp hold).1
    · obtain ⟨before, anchor, ⟨after, hlast, -⟩, heq, hread⟩ :=
        (h.dropRecords id).getNode_carried (fun _ hmem => (h.anchorsIn hmem).2.1) hanchor
      have hmem' : anchor ∈ store.anchorsIn id := by
        rw [hlast]
        exact List.mem_append_right _ List.mem_cons_self
      refine .inr ⟨anchor.2, (hsame _).trans hread, ?_⟩
      rw [(h.anchorsIn hmem').2.2]
      rfl
  · exact List.forall_mem_singleton.mpr hgone
  · intro other hlt
    rw [List.forall_mem_singleton] at hlt
    rw [herased other hlt.ne]
    by_cases hexists : (store.segments.get id).isSome = true
    · exact hbelow id hexists other hlt
    · have hnil : store.anchorsIn id = [] := List.eq_nil_iff_forall_not_mem.mpr fun anchor hmem =>
        hexists (h.anchorsIn hmem).1
      rw [carryAnchors, hnil]
      rfl
  · intro other hnot hsome
    rw [herased other fun heq => hnot (List.mem_singleton.mpr heq)]
    exact hcarried.kept other hsome
  · intro other contents hget
    have hne : other ≠ id := by
      rintro rfl
      rw [hgone] at hget
      cases hget
    rw [herased other hne] at hget
    obtain ⟨base, frames, hcontents, hbase, hframes⟩ := hcarried.grown other contents hget
    refine ⟨base, frames, hcontents, hbase, fun data hmem => ?_⟩
    obtain ⟨anchor, hanchor, rfl⟩ := List.mem_map.mp (hframes data hmem)
    rw [(h.anchorsIn hanchor).2.2]
    exact ⟨(h.anchorsIn hanchor).2.1, rfl⟩
  · intro newer hnewer hlt
    rw [List.forall_mem_singleton] at hlt
    constructor
    · intro other hother hnot
      rw [herased other fun heq => hnot (List.mem_singleton.mpr heq)]
      exact hbelow newer hnewer other hother
    · have htotal := (store.carryAnchors id).segments.total_erase
        (fun _ contents => contents.length) id
      have hweight : (store.carryAnchors id).segments.weightAt
          (fun _ contents => contents.length) id = store.segmentSize id := by
        rw [AssocMap.weightAt, hbelow newer hnewer id hlt, segmentSize]
        cases store.segments.get id <;> rfl
      have hsize : (store.carryAnchors id).totalSize =
          store.totalSize + framesSize (store.anchorsIn id) := hcarried.size
      rw [hweight] at htotal
      rw [List.map_singleton, List.map_singleton, List.sum_singleton, List.sum_singleton, ← hsize]
      exact htotal

end

/-- The segments that an eviction deletes. -/
def evictedIds (store : OpaqueStore) : Nat → List Nat → List Nat
  | _, [] => []
  | totalSize, id :: rest =>
      if totalSize ≤ opaqueTotalMaxSize then []
      else if store.locks.contains id then store.evictedIds totalSize rest
      else id :: store.evictedIds (totalSize - store.segmentSize id) rest

/-- Every segment that an eviction deletes is spared its anchors when it is deleted. -/
def Spares (store : OpaqueStore) : Nat → List Nat → Prop
  | _, [] => True
  | totalSize, id :: rest =>
      if totalSize ≤ opaqueTotalMaxSize then True
      else if store.locks.contains id then store.Spares totalSize rest
      else
        store.Spared id ∧ (store.pruneSegment id).Spares (totalSize - store.segmentSize id) rest

omit [WireFormat] in
theorem mem_of_mem_evictedIds {id : Nat} (hmem : id ∈ store.evictedIds total ids) :
    id ∈ ids := by
  induction ids generalizing total with
  | nil => exact hmem
  | cons first rest ih =>
      rw [evictedIds] at hmem
      split at hmem
      · cases hmem
      · split at hmem
        · exact List.mem_cons_of_mem _ (ih hmem)
        · exact List.mem_cons.mpr ((List.mem_cons.mp hmem).imp_right ih)

omit [WireFormat] in
/-- Which segments are deleted depends on the sizes of all but the last. -/
theorem evictedIds_congr {other : OpaqueStore} (hlocks : other.locks = store.locks)
    (hsorted : ids.Pairwise (· < ·))
    (hsame : ∀ id ∈ ids, ∀ newer ∈ ids, id < newer →
      other.segments.get id = store.segments.get id) :
    other.evictedIds total ids = store.evictedIds total ids := by
  induction ids generalizing total with
  | nil => rfl
  | cons first rest ih =>
      rw [List.pairwise_cons] at hsorted
      have hrest : ∀ total, other.evictedIds total rest = store.evictedIds total rest := fun total =>
        ih hsorted.2 fun id hid newer hnewer =>
          hsame id (List.mem_cons_of_mem _ hid) newer (List.mem_cons_of_mem _ hnewer)
      rw [evictedIds, evictedIds, hlocks, hrest, hrest]
      cases rest with
      | nil => rfl
      | cons second rest =>
          have hget := hsame first List.mem_cons_self second
            (List.mem_cons_of_mem _ List.mem_cons_self) (hsorted.1 second List.mem_cons_self)
          rw [segmentSize, hget, segmentSize]

/-- Evicting deletes the segments that are counted off. -/
theorem WellFormed.evicted (h : store.WellFormed) (hsorted : ids.Pairwise (· < ·))
    (hexist : ∀ id ∈ ids, (store.segments.get id).isSome = true)
    (hspares : store.Spares total ids) :
    Evicted store (store.evictedIds total ids) (store.evict total ids) := by
  induction ids generalizing store total with
  | nil => exact Evicted.refl h
  | cons first rest ih =>
      rw [List.pairwise_cons] at hsorted
      rw [List.forall_mem_cons] at hexist
      rw [Spares] at hspares
      rw [evictedIds, evict]
      split
      next => exact Evicted.refl h
      next hover =>
        rw [if_neg hover] at hspares
        split
        next hlocked =>
          rw [if_pos hlocked] at hspares
          exact ih h hsorted.2 hexist.2 hspares
        next hfree =>
          rw [if_neg hfree] at hspares
          have hone := h.evicted_one hspares.1
          have hother : ∀ other ∈ rest, other ∉ [first] := fun other hmem hsingle =>
            (hsorted.1 other hmem).ne' (List.mem_singleton.mp hsingle)
          have hids : (store.pruneSegment first).evictedIds
              (total - store.segmentSize first) rest =
                store.evictedIds (total - store.segmentSize first) rest := by
            refine evictedIds_congr hone.locks hsorted.2 fun id hid newer hnewer hlt => ?_
            exact (hone.beside newer (hexist.2 newer hnewer)
              (List.forall_mem_singleton.mpr (hsorted.1 newer hnewer))).1 id hlt (hother id hid)
          have hrest := ih hone.wellFormed hsorted.2
            (fun id hid => hone.kept id (hother id hid) (hexist.2 id hid)) hspares.2
          rw [hids] at hrest
          exact hone.trans hrest fun other hmem => hsorted.1 other (mem_of_mem_evictedIds hmem)

end OpaqueStore

end MerkleTox.Fs
