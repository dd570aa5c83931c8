import MerkleTox.Fs.Answers

/-! # What compaction changes

Compaction writes the journal's nodes to a pack with the statuses of their records. It
goes unnoticed when the journal holds nothing that a pack cannot: no promotion or
speculative node, no node twice, and no ratchet key.
-/

namespace MerkleTox.Fs

open Library Proto MerkleTox.Core

/-- The record of a pack says what the journal's index says. -/
structure IndexRecord.Matches (record : IndexRecord) (info : JournalNodeInfo) : Prop where
  nodeType : record.nodeType = info.nodeType
  rank : record.rank = info.rank
  adminDistance : record.adminDistance = info.adminDistance
  verified : record.verified = info.verified

namespace ConversationContext

/-- The conversation has a node of this hash. -/
def Holds (context : ConversationContext) (nodeHash : NodeHash) : Prop :=
  (context.volatileNodes.get nodeHash).isSome = true ∨ nodeHash ∈ context.packedHashes

variable [IndexSearch] [Primitives]

/-- The journal can become a pack unnoticed, by readers who find the hashes in `owned`
here. -/
structure Settled (context : ConversationContext) (owned : NodeHash → Prop) : Prop where
  noKeys : ∀ nodeHash, context.hotRatchets.get nodeHash = none
  verified : ∀ entry ∈ context.nodesToPack, entry.1 = true
  once : context.journalHashes.Nodup
  /-- An older pack that has a node of the journal says the same of it. -/
  consistent : ∀ {nodeHash info record}, owned nodeHash →
    context.volatileNodes.get nodeHash = some info → context.packed nodeHash = some record →
      record.Matches info ∧ context.packedNode nodeHash = context.getNode nodeHash

variable {clock : Nat} {context : ConversationContext}
variable {nodeHash : NodeHash}

theorem packedNode_of_packed_none (hnone : context.packed nodeHash = none) :
    context.packedNode nodeHash = none := by
  rw [packed, List.findSome?_eq_none_iff] at hnone
  rw [packedNode, List.findSome?_eq_none_iff]
  intro pack hpack
  rw [Pack.getNodeData, hnone pack hpack]
  rfl

variable {info : JournalNodeInfo}

theorem WellFormed.getNode_of_volatile (h : context.WellFormed clock)
    (hget : context.volatileNodes.get nodeHash = some info) :
    ∃ verified node, context.files.journal.records[info.offset]? = some (.node verified node) ∧
      context.getNode nodeHash = some node ∧ hash node = nodeHash ∧ info.Describes node := by
  obtain ⟨verified, node, hrecord, hhash, hdescribes⟩ := h.recorded hget
  refine ⟨verified, node, hrecord, ?_, hhash, hdescribes⟩
  simp only [ConversationContext.getNode, hget, readNodeAt, hrecord]
  simp [hhash]

section NewPack

omit [IndexSearch]

/-- A record of the new pack stands for a node of the journal. -/
theorem mem_newPack {record : IndexRecord} (hmem : record ∈ context.newPack.index) :
    ∃ entry ∈ context.nodesToPack, record.hash = hash entry.2 ∧
      record.rank = entry.2.topologicalRank ∧ record.nodeType = entry.2.nodeType ∧
      record.verified = entry.1 ∧ record.adminDistance =
        ((context.volatileNodes.get (hash entry.2)).map JournalNodeInfo.adminDistance).getD 0 := by
  obtain ⟨offset, hoffset, rfl⟩ := List.mem_mapIdx.mp hmem
  exact ⟨_, List.getElem_mem hoffset, rfl, rfl, rfl, rfl, rfl⟩

theorem newPack_hashes :
    context.newPack.index.map IndexRecord.hash =
      context.journalHashes := by
  refine List.ext_getElem (by simp [newPack, journalHashes]) fun _ _ _ => ?_
  simp [newPack, journalHashes, indexRecord]

end NewPack

/-- The nodes of the journal are those of its index. -/
theorem WellFormed.mem_journalHashes (h : context.WellFormed clock) :
    nodeHash ∈ context.journalHashes ↔
      (context.volatileNodes.get nodeHash).isSome = true := by
  rw [journalHashes, List.mem_map]
  constructor
  · rintro ⟨⟨verified, node⟩, hmem, rfl⟩
    exact h.indexed hmem
  · intro hsome
    obtain ⟨info, hinfo⟩ := Option.isSome_iff_exists.mp hsome
    obtain ⟨verified, node, hrecord, hhash, -⟩ := h.recorded hinfo
    exact ⟨(verified, node), mem_nodesToPack.mpr (List.mem_of_getElem? hrecord), hhash⟩

/-- A journal of verified nodes has a verified index. -/
theorem replayAll_verified (files : ConversationFiles) (state : ConvState) (packs : List Pack)
    (records : List JournalRecord)
    (hverified : ∀ verified node, .node verified node ∈ records → verified = true)
    (hget : ((unreplayed files state packs).replayAll records).volatileNodes.get nodeHash =
      some info) : info.verified = true := by
  induction records using List.reverseRecOn generalizing info with
  | nil => cases hget
  | append_singleton records record ih =>
      have hbefore : ∀ verified node, .node verified node ∈ records → verified = true :=
        fun verified node hmem => hverified verified node (List.mem_append_left _ hmem)
      rw [replayAll_concat] at hget
      cases record with
      | node verified node =>
          have hlast : verified = true :=
            hverified verified node (List.mem_append_right _ List.mem_cons_self)
          simp only [replayRecord, AssocMap.get_insert] at hget
          split at hget
          next =>
            obtain rfl := Option.some.inj hget
            exact hlast
          next => exact ih hbefore hget
      | promotion promoted =>
          simp only [replayRecord] at hget
          by_cases heq : nodeHash = promoted
          · rw [heq, AssocMap.get_modify_self] at hget
            obtain ⟨old, -, rfl⟩ := Option.map_eq_some_iff.mp hget
            rfl
          · rw [AssocMap.get_modify_of_ne _ _ heq] at hget
            exact ih hbefore hget
      | ratchetAdvance advanced chainKey epochId => exact ih hbefore hget

/-! ## Sequence numbers -/

/-- What compaction learns of a sender is not beyond the sender's last number. -/
def Numbered (context : ConversationContext) (updates : RatchetUpdates) : Prop :=
  ∀ senderPk update, updates.get senderPk = some update →
    update.2.1 ≤ context.getLastSequenceNumber senderPk

theorem WellFormed.noteUpdate_numbered (h : context.WellFormed clock) {updates : RatchetUpdates}
    (hupdates : context.Numbered updates) {record : JournalRecord}
    (hmem : record ∈ context.files.journal.records) :
    context.Numbered (noteUpdate context.volatileNodes updates record) := by
  intro senderPk update hget
  cases record with
  | node verified node =>
      simp only [noteUpdate, AssocMap.get_insert] at hget
      split at hget
      next heq =>
        obtain rfl := Option.some.inj hget
        rw [heq]
        refine max_le ?_ (h.numbered verified node hmem)
        cases hold : updates.get node.senderPk with
        | none => exact Nat.zero_le _
        | some update => exact hupdates _ _ hold
      next => exact hupdates _ _ hget
  | promotion promoted => exact hupdates _ _ hget
  | ratchetAdvance advanced chainKey epochId =>
      simp only [noteUpdate] at hget
      split at hget
      next info hinfo =>
        rw [AssocMap.get_insert] at hget
        split at hget
        next heq =>
          obtain rfl := Option.some.inj hget
          obtain ⟨verified, node, hrecord, -, hdescribes⟩ := h.recorded hinfo
          rw [heq, hdescribes.sequenceNumber, hdescribes.senderPk]
          exact h.numbered verified node (List.mem_of_getElem? hrecord)
        next => exact hupdates _ _ hget
      next => exact hupdates _ _ hget

theorem WellFormed.ratchetUpdates_numbered (h : context.WellFormed clock) :
    context.Numbered context.ratchetUpdates := by
  have hfold : ∀ records : List JournalRecord, ∀ updates : RatchetUpdates,
      (∀ record ∈ records, record ∈ context.files.journal.records) →
      context.Numbered updates →
      context.Numbered (records.foldl (noteUpdate context.volatileNodes) updates) := by
    intro records
    induction records with
    | nil => exact fun _ _ hupdates => hupdates
    | cons record rest ih =>
        intro updates hsub hupdates
        exact ih _ (fun later hmem => hsub later (List.mem_cons_of_mem _ hmem))
          (h.noteUpdate_numbered hupdates (hsub record List.mem_cons_self))
  exact hfold _ _ (fun _ hmem => hmem) fun _ _ hget => nomatch hget

omit [IndexSearch] [Primitives] in
theorem foldl_noteSequence_of_le {updates : List (PhysicalDevicePk × ChainKey × Nat × Nat)}
    {seqNumbers : AssocMap PhysicalDevicePk Nat}
    (hle : ∀ update ∈ updates, update.2.2.1 ≤ (seqNumbers.get update.1).getD 0)
    (senderPk : PhysicalDevicePk) :
    ((updates.foldl (fun seqNumbers update => noteSequence seqNumbers update.1 update.2.2.1)
      seqNumbers).get senderPk).getD 0 = (seqNumbers.get senderPk).getD 0 := by
  induction updates generalizing seqNumbers with
  | nil => rfl
  | cons update rest ih =>
      have hsame : ∀ other, ((noteSequence seqNumbers update.1 update.2.2.1).get other).getD 0 =
          (seqNumbers.get other).getD 0 := by
        intro other
        rw [getLastSequenceNumber_noteSequence]
        split
        next heq => rw [heq, max_eq_right (hle update List.mem_cons_self)]
        next => rfl
      rw [List.foldl_cons, ih, hsame]
      intro later hmem
      rw [hsame]
      exact hle later (List.mem_cons_of_mem _ hmem)

theorem WellFormed.getLastSequenceNumber_compactInternal (h : context.WellFormed clock)
    (packId : Nat) (senderPk : PhysicalDevicePk) :
    (context.compactInternal packId).getLastSequenceNumber senderPk =
      context.getLastSequenceNumber senderPk := by
  unfold ConversationContext.compactInternal
  split
  next => rfl
  next =>
    refine foldl_noteSequence_of_le (fun update hmem => ?_) senderPk
    exact h.ratchetUpdates_numbered _ _ (AssocMap.get_eq_some_iff.mpr hmem)

section Settling

variable {owned : NodeHash → Prop}
variable {nodeHash : NodeHash}
variable {info : JournalNodeInfo} {record : IndexRecord → Bool} {volatile : JournalNodeInfo → Bool}

section

variable (hsettled : context.Settled owned) (h : context.WellFormed clock)
include hsettled h

theorem Settled.volatile_verified (hget : context.volatileNodes.get nodeHash = some info) :
    info.verified = true :=
  replayAll_verified _ _ _ _
    (fun _ _ hmem => hsettled.verified _ (mem_nodesToPack.mpr hmem)) (h.replayed ▸ hget)

/-- Each record of the new pack says what the index says of its node. -/
theorem Settled.matches {record : IndexRecord} (hmem : record ∈ context.newPack.index) :
    ∃ info, context.volatileNodes.get record.hash = some info ∧ record.Matches info := by
  obtain ⟨⟨verified, node⟩, hentry, hhash, hrank, htype, hstatus, hdistance⟩ := mem_newPack hmem
  obtain ⟨info, hinfo⟩ := Option.isSome_iff_exists.mp (h.indexed hentry)
  obtain ⟨other, stored, hrecord, hstored, hdescribes⟩ := h.recorded hinfo
  -- The journal has the hash once, so the index speaks of this very node.
  have hsame : (other, stored) = (verified, node) := by
    refine List.inj_on_of_nodup_map hsettled.once ?_ hentry hstored
    exact mem_nodesToPack.mpr (List.mem_of_getElem? hrecord)
  obtain ⟨rfl, rfl⟩ := Prod.mk.inj hsame
  refine ⟨info, hhash ▸ hinfo, htype.trans hdescribes.nodeType.symm,
    hrank.trans hdescribes.rank.symm, ?_, ?_⟩
  · rw [hdistance, hinfo]
    rfl
  · rw [hstatus, hsettled.verified _ hentry, hsettled.volatile_verified h hinfo]

/-- A node of the journal is found in the new pack. -/
theorem Settled.lookup (hget : context.volatileNodes.get nodeHash = some info) :
    ∃ record, IndexSearch.lookup context.newPack.index nodeHash = some record ∧
      record.Matches info ∧ context.newPack.getNodeData nodeHash = context.getNode nodeHash := by
  have hsome : (IndexSearch.lookup context.newPack.index nodeHash).isSome = true := by
    rw [lookup_isSome, newPack_hashes, h.mem_journalHashes, hget]
    rfl
  obtain ⟨record, hrecord⟩ := Option.isSome_iff_exists.mp hsome
  obtain ⟨hmem, hhash⟩ := IndexSearch.lookup_some hrecord
  obtain ⟨found, hfound, hmatches⟩ := hsettled.matches h hmem
  obtain rfl : found = info := by
    rw [hhash, hget] at hfound
    exact (Option.some.inj hfound).symm
  refine ⟨record, hrecord, hmatches, ?_⟩
  obtain ⟨entry, hentry, hdata, -, hentryHash⟩ := context.newPack_sound.getNodeData hrecord
  obtain ⟨verified, node, hjournal, hnode, hnodeHash, -⟩ := h.getNode_of_volatile hget
  have hsame : entry = (verified, node) :=
    List.inj_on_of_nodup_map hsettled.once hentry
      (mem_nodesToPack.mpr (List.mem_of_getElem? hjournal)) (hentryHash.trans hnodeHash.symm)
  rw [hdata, hnode, hsame]

end

/-! ## Reads of a compacted conversation -/

section

variable (hnodes : context.nodesToPack ≠ []) (packId : Nat)
include hnodes

omit [IndexSearch] in
theorem compactInternal_of_nodes :
    ∃ files lastSeqNumbers, context.compactInternal packId =
      { files := files
        state := { context.state with
          activePacks := context.state.activePacks ++ [packId], activeJournalId := packId }
        packs := context.packs ++ [context.newPack]
        volatileNodes := .empty
        hotRatchets := .empty
        lastSeqNumbers := lastSeqNumbers
        childIndex := context.childIndex } := by
  unfold ConversationContext.compactInternal
  rw [if_neg (by simpa using hnodes)]
  exact ⟨_, _, rfl⟩

theorem look_compactInternal {α : Type} (volatile : JournalNodeInfo → α) (record : IndexRecord → α)
    (nodeHash : NodeHash) :
    (context.compactInternal packId).look nodeHash volatile record =
      ((context.packed nodeHash).or
        (IndexSearch.lookup context.newPack.index nodeHash)).map record := by
  obtain ⟨files, lastSeqNumbers, hcompacted⟩ := compactInternal_of_nodes hnodes packId
  rw [hcompacted, look]
  simp only [AssocMap.get_empty, packed, List.findSome?_append, List.findSome?_cons,
    List.findSome?_nil]
  cases IndexSearch.lookup context.newPack.index nodeHash <;> rfl

theorem getNode_compactInternal (nodeHash : NodeHash) :
    (context.compactInternal packId).getNode nodeHash =
      (context.packedNode nodeHash).or ((context.newPack.getNodeData nodeHash).filter
        fun node => hash node = nodeHash) := by
  obtain ⟨files, lastSeqNumbers, hcompacted⟩ := compactInternal_of_nodes hnodes packId
  rw [hcompacted, ConversationContext.getNode]
  simp only [AssocMap.get_empty, packedNode, List.findSome?_append, List.findSome?_cons,
    List.findSome?_nil]
  cases (context.newPack.getNodeData nodeHash).filter fun node => hash node = nodeHash <;> rfl

omit [IndexSearch] in
theorem listed_compactInternal (volatile : JournalNodeInfo → Bool) (record : IndexRecord → Bool) :
    (context.compactInternal packId).listed volatile record =
      ((context.packs.flatMap Pack.index).filter record).map IndexRecord.hash ++
        (context.newPack.index.filter record).map IndexRecord.hash := by
  obtain ⟨files, lastSeqNumbers, hcompacted⟩ := compactInternal_of_nodes hnodes packId
  rw [hcompacted]
  simp [listed, AssocMap.empty]

end

section

variable (hsettled : context.Settled owned) (h : context.WellFormed clock)
include hsettled h

/-- What both the index of the journal and its records say of a node survives compaction. -/
theorem Settled.look_compacted (hnodes : context.nodesToPack ≠ []) (packId : Nat) {α : Type}
    {volatile : JournalNodeInfo → α} {record : IndexRecord → α}
    (hagree : ∀ {found info}, IndexRecord.Matches found info → record found = volatile info)
    (howned : owned nodeHash) :
    (context.compactInternal packId).look nodeHash volatile record =
      context.look nodeHash volatile record := by
  rw [look_compactInternal hnodes, look]
  cases hget : context.volatileNodes.get nodeHash with
  | some info =>
      obtain ⟨found, hfound, hmatches, -⟩ := hsettled.lookup h hget
      cases hpacked : context.packed nodeHash with
      | some older =>
          simp only [Option.some_or, Option.map_some]
          rw [hagree (hsettled.consistent howned hget hpacked).1]
      | none =>
          simp only [Option.none_or, hfound, Option.map_some]
          rw [hagree hmatches]
  | none =>
      have habsent : IndexSearch.lookup context.newPack.index nodeHash = none := by
        rw [← Option.not_isSome_iff_eq_none, lookup_isSome, newPack_hashes, h.mem_journalHashes,
          hget]
        exact Bool.false_ne_true
      rw [habsent, Option.or_none]

theorem Settled.getNode_compacted (hnodes : context.nodesToPack ≠ []) (packId : Nat)
    (howned : owned nodeHash) :
    (context.compactInternal packId).getNode nodeHash = context.getNode nodeHash := by
  rw [getNode_compactInternal hnodes]
  cases hget : context.volatileNodes.get nodeHash with
  | some info =>
      obtain ⟨found, -, -, hdata⟩ := hsettled.lookup h hget
      obtain ⟨_, node, -, hnode, hhash, -⟩ := h.getNode_of_volatile hget
      cases hpacked : context.packed nodeHash with
      | some older =>
          rw [(hsettled.consistent howned hget hpacked).2, hnode]
          rfl
      | none =>
          rw [packedNode_of_packed_none hpacked, hdata, hnode]
          simp [hhash]
  | none =>
      have habsent : IndexSearch.lookup context.newPack.index nodeHash = none := by
        rw [← Option.not_isSome_iff_eq_none, lookup_isSome, newPack_hashes, h.mem_journalHashes,
          hget]
        exact Bool.false_ne_true
      rw [Pack.getNodeData, habsent]
      simp [ConversationContext.getNode, hget]

/-- What a test picks from the index it picks from the new pack. -/
theorem Settled.listed_newPack
    (hagree : ∀ {found info}, IndexRecord.Matches found info → record found = volatile info) :
    ((context.newPack.index.filter record).map IndexRecord.hash).Perm
      ((context.volatileNodes.entries.filter fun entry => volatile entry.2).map Prod.fst) := by
  have hnodup : (context.newPack.index.map IndexRecord.hash).Nodup := by
    rw [newPack_hashes]
    exact hsettled.once
  refine (List.perm_ext_iff_of_nodup (hnodup.sublist (List.filter_sublist.map _))
    (AssocMap.nodup_keysWhere _ _)).mpr fun nodeHash => ?_
  rw [AssocMap.mem_keysWhere, List.mem_map]
  constructor
  · rintro ⟨found, hmem, rfl⟩
    obtain ⟨hfound, htest⟩ := List.mem_filter.mp hmem
    obtain ⟨info, hinfo, hmatches⟩ := hsettled.matches h hfound
    exact ⟨info, hinfo, hagree hmatches ▸ htest⟩
  · rintro ⟨info, hinfo, htest⟩
    obtain ⟨found, hfound, hmatches, -⟩ := hsettled.lookup h hinfo
    obtain ⟨hmem, hhash⟩ := IndexSearch.lookup_some hfound
    exact ⟨found, List.mem_filter.mpr ⟨hmem, (hagree hmatches).trans htest⟩, hhash⟩

theorem Settled.listed_compacted (hnodes : context.nodesToPack ≠ []) (packId : Nat)
    (hagree : ∀ {found info}, IndexRecord.Matches found info → record found = volatile info) :
    ((context.compactInternal packId).listed volatile record).Perm
      (context.listed volatile record) := by
  rw [listed_compactInternal hnodes, listed]
  exact (List.perm_append_comm).trans ((hsettled.listed_newPack h hagree).append_right _)

/-- A settled conversation reads after its compaction as before it. -/
theorem Settled.agrees (hnodes : context.nodesToPack ≠ []) (packId : Nat) :
    context.Agrees owned (context.compactInternal packId) := by
  obtain ⟨files, lastSeqNumbers, hcompacted⟩ := compactInternal_of_nodes hnodes packId
  exact
    { getNode := hsettled.getNode_compacted h hnodes packId
      isVerified := fun howned =>
        congrArg (fun status : Option Bool => status.getD false)
          (hsettled.look_compacted h hnodes packId (fun hmatches => hmatches.verified) howned)
      getRank := hsettled.look_compacted h hnodes packId fun hmatches => hmatches.rank
      getNodeType :=
        hsettled.look_compacted h hnodes packId fun hmatches => hmatches.nodeType
      getAdminDistance :=
        hsettled.look_compacted h hnodes packId fun hmatches => hmatches.adminDistance
      hasChildren := fun _ => by
        rw [hcompacted]
        rfl
      speculative := by
        have hbefore : context.speculativeHashes = [] := by
          rw [speculativeHashes, List.map_eq_nil_iff, List.filter_eq_nil_iff]
          intro entry hentry
          rw [hsettled.volatile_verified h (AssocMap.get_eq_some_iff.mpr hentry)]
          exact Bool.false_ne_true
        rw [hbefore, hcompacted]
        exact .refl _
      counts := by
        rw [getNodeCounts, getNodeCounts]
        refine Prod.ext ?_ ?_
        · exact (hsettled.listed_compacted h hnodes packId fun hmatches =>
            hmatches.verified).length_eq
        · exact (hsettled.listed_compacted h hnodes packId fun hmatches =>
            congrArg not hmatches.verified).length_eq
      verified := fun nodeType =>
        hsettled.listed_compacted h hnodes packId fun hmatches => by
          rw [hmatches.verified, hmatches.nodeType]
      inRange := fun range =>
        hsettled.listed_compacted h hnodes packId fun hmatches => by
          rw [hmatches.verified, hmatches.rank]
      sequences := h.getLastSequenceNumber_compactInternal packId
      ratchets := fun nodeHash => by
        rw [getRatchetKey, getRatchetKey, hsettled.noKeys nodeHash, hcompacted]
        rfl }

end

end Settling

end ConversationContext

end MerkleTox.Fs
