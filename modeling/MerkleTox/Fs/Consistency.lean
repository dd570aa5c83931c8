import MerkleTox.Fs.Store

/-! # Memory and files of a conversation agree

Every write leaves a conversation as opening its files would find it: the state is saved,
the packs that it names are open, and the index of the journal's nodes is what a replay
of the journal gives.
-/

namespace MerkleTox.Fs

open Library Proto MerkleTox.Core

variable {nodeHash : NodeHash} {info : JournalNodeInfo}

/-- The index entry of a journal's node says what the node says. -/
structure JournalNodeInfo.Describes (info : JournalNodeInfo) (node : MerkleNode) : Prop where
  nodeType : info.nodeType = node.nodeType
  rank : info.rank = node.topologicalRank
  senderPk : info.senderPk = node.senderPk
  sequenceNumber : info.sequenceNumber = node.seq

section Packs

variable [IndexSearch]

theorem lookup_isSome {records : List IndexRecord} :
    (IndexSearch.lookup records nodeHash).isSome = true ↔
      nodeHash ∈ records.map IndexRecord.hash := by
  cases hlookup : IndexSearch.lookup records nodeHash with
  | none =>
      refine ⟨nofun, fun hmem => ?_⟩
      obtain ⟨record, hrecord, hhash⟩ := List.mem_map.mp hmem
      exact absurd hhash (IndexSearch.lookup_none hlookup record hrecord)
  | some record =>
      obtain ⟨hmem, hhash⟩ := IndexSearch.lookup_some hlookup
      exact ⟨fun _ => List.mem_map.mpr ⟨record, hmem, hhash⟩, fun _ => rfl⟩

variable [Primitives]

/-- The record of a pack says what the data behind it say. -/
structure IndexRecord.Describes (record : IndexRecord) (entry : Bool × MerkleNode) : Prop where
  hashed : record.hash = Core.hash entry.2
  rank : record.rank = entry.2.topologicalRank
  nodeType : record.nodeType = entry.2.nodeType
  verified : record.verified = entry.1

/-- Every record of the pack has its data. -/
def Pack.Sound (pack : Pack) : Prop :=
  ∀ record ∈ pack.index, ∃ entry, pack.data[record.offset]? = some entry ∧ record.Describes entry

theorem Pack.Sound.getNodeData {pack : Pack} (hsound : pack.Sound) {record : IndexRecord}
    (hlookup : IndexSearch.lookup pack.index nodeHash = some record) :
    ∃ entry ∈ pack.data, pack.getNodeData nodeHash = some entry.2 ∧
      record.Describes entry ∧ hash entry.2 = nodeHash := by
  obtain ⟨hmem, hhash⟩ := IndexSearch.lookup_some hlookup
  obtain ⟨entry, hdata, hdescribes⟩ := hsound record hmem
  refine ⟨entry, List.mem_of_getElem? hdata, ?_, hdescribes,
    hdescribes.hashed.symm.trans hhash⟩
  rw [Pack.getNodeData, hlookup, Option.bind_some, hdata]
  rfl

end Packs

namespace ConversationContext

variable {node : MerkleNode} {verified : Bool} {left right : ConversationContext}

theorem mem_nodesToPack {context : ConversationContext} :
    (verified, node) ∈ context.nodesToPack ↔
      .node verified node ∈ context.files.journal.records := by
  rw [nodesToPack, List.mem_filterMap]
  constructor
  · rintro ⟨record, hmem, heq⟩
    cases record with
    | node verified' node' =>
        cases heq
        exact hmem
    | promotion _ => cases heq
    | ratchetAdvance _ _ _ => cases heq
  · intro hmem
    exact ⟨_, hmem, rfl⟩

theorem mapM_insert_of_fresh {packs : AssocMap Nat Pack} {ids : List Nat} {packId : Nat}
    (hfresh : packId ∉ ids) (pack : Pack) :
    ids.mapM (packs.insert packId pack).get = ids.mapM packs.get := by
  induction ids with
  | nil => rfl
  | cons first rest ih =>
      rw [List.mem_cons, not_or] at hfresh
      rw [List.mapM_cons, List.mapM_cons, AssocMap.get_insert_of_ne _ _ (Ne.symm hfresh.1),
        ih hfresh.2]

variable (seqNumbers : AssocMap PhysicalDevicePk Nat)

theorem getLastSequenceNumber_noteSequence
    (senderPk other : PhysicalDevicePk) (seq : Nat) :
    ((noteSequence seqNumbers senderPk seq).get other).getD 0 =
      if other = senderPk then max seq ((seqNumbers.get other).getD 0)
      else (seqNumbers.get other).getD 0 := by
  rw [noteSequence, AssocMap.get_insert]
  split
  next heq => rw [heq, Option.getD_some]
  next => rfl

theorem le_noteSequence
    (senderPk other : PhysicalDevicePk) (seq : Nat) :
    (seqNumbers.get other).getD 0 ≤ ((noteSequence seqNumbers senderPk seq).get other).getD 0 := by
  rw [getLastSequenceNumber_noteSequence]
  split
  · exact le_max_right _ _
  · exact le_refl _

theorem seq_le_noteSequence
    (senderPk : PhysicalDevicePk) (seq : Nat) :
    seq ≤ ((noteSequence seqNumbers senderPk seq).get senderPk).getD 0 := by
  rw [getLastSequenceNumber_noteSequence, if_pos rfl]
  exact le_max_left _ _

variable [Primitives]

theorem newPack_sound (context : ConversationContext) : context.newPack.Sound := by
  intro record hmem
  obtain ⟨offset, hoffset, rfl⟩ := List.mem_mapIdx.mp hmem
  exact ⟨_, List.getElem?_eq_getElem hoffset, rfl, rfl, rfl, rfl⟩

variable [IndexSearch]

/-! ## Replaying -/

theorem replayRecord_frame (context : ConversationContext) (entry : JournalRecord × Nat) :
    ∃ volatileNodes hotRatchets lastSeqNumbers childIndex,
      context.replayRecord entry =
        { context with
          volatileNodes := volatileNodes, hotRatchets := hotRatchets
          lastSeqNumbers := lastSeqNumbers, childIndex := childIndex } := by
  obtain ⟨record, offset⟩ := entry
  cases record <;> exact ⟨_, _, _, _, rfl⟩

theorem replayAll_concat (context : ConversationContext) (records : List JournalRecord)
    (record : JournalRecord) :
    context.replayAll (records ++ [record]) =
      (context.replayAll records).replayRecord (record, records.length) := by
  rw [replayAll, List.zipIdx_append, List.foldl_append]
  simp only [Nat.zero_add]
  rfl

theorem replayAll_frame (context : ConversationContext) (records : List JournalRecord) :
    ∃ volatileNodes hotRatchets lastSeqNumbers childIndex,
      context.replayAll records =
        { context with
          volatileNodes := volatileNodes, hotRatchets := hotRatchets
          lastSeqNumbers := lastSeqNumbers, childIndex := childIndex } := by
  induction records using List.reverseRecOn with
  | nil => exact ⟨_, _, _, _, rfl⟩
  | append_singleton records record ih =>
      obtain ⟨_, _, _, _, hframe⟩ := ih
      rw [replayAll_concat, hframe]
      exact replayRecord_frame _ _

/-- The index of the journal's nodes depends on the packs and the records alone. -/
theorem replayRecord_volatileNodes (hpacks : left.packs = right.packs)
    (hnodes : left.volatileNodes = right.volatileNodes) (entry : JournalRecord × Nat) :
    (left.replayRecord entry).volatileNodes = (right.replayRecord entry).volatileNodes := by
  obtain ⟨record, offset⟩ := entry
  cases record with
  | node verified node =>
      have hinfo : left.nodeInfo node verified offset = right.nodeInfo node verified offset := by
        unfold nodeInfo storedDistance getAdminDistance look packed
        rw [hpacks, hnodes]
      simp only [replayRecord, hnodes, hinfo]
  | promotion nodeHash => simp only [replayRecord, hnodes]
  | ratchetAdvance nodeHash chainKey epochId => exact hnodes

theorem replayAll_volatileNodes (hpacks : left.packs = right.packs)
    (hnodes : left.volatileNodes = right.volatileNodes) (records : List JournalRecord) :
    (left.replayAll records).volatileNodes = (right.replayAll records).volatileNodes := by
  induction records using List.reverseRecOn with
  | nil => exact hnodes
  | append_singleton records record ih =>
      obtain ⟨_, _, _, _, hleft⟩ := left.replayAll_frame records
      obtain ⟨_, _, _, _, hright⟩ := right.replayAll_frame records
      rw [replayAll_concat, replayAll_concat]
      refine replayRecord_volatileNodes ?_ ih _
      rw [hleft, hright]
      exact hpacks

/-- What opening the files would rebuild in memory. -/
def rebuilt (context : ConversationContext) : ConversationContext :=
  (unreplayed context.files context.state context.packs).replayAll context.files.journal.records

theorem rebuilt_frame (context : ConversationContext) :
    ∃ volatileNodes hotRatchets lastSeqNumbers childIndex,
      context.rebuilt =
        { context with
          volatileNodes := volatileNodes, hotRatchets := hotRatchets
          lastSeqNumbers := lastSeqNumbers, childIndex := childIndex } :=
  replayAll_frame _ _

theorem rebuilt_volatileNodes (hpacks : left.packs = right.packs)
    (hjournal : left.files.journal.records = right.files.journal.records) :
    left.rebuilt.volatileNodes = right.rebuilt.volatileNodes := by
  unfold rebuilt
  rw [hjournal]
  refine replayAll_volatileNodes ?_ ?_ _
  · exact hpacks
  · rfl

variable (files : ConversationFiles)

section

variable (state : ConvState) (packs : List Pack) (records : List JournalRecord)

/-- A replayed node stands in the journal at its offset. -/
theorem replayAll_recorded
    (hget : ((unreplayed files state packs).replayAll records).volatileNodes.get nodeHash =
      some info) :
    ∃ verified node, records[info.offset]? = some (.node verified node) ∧
      hash node = nodeHash ∧ info.Describes node := by
  induction records using List.reverseRecOn generalizing info with
  | nil => cases hget
  | append_singleton records record ih =>
      have hkeep : ∀ {info : JournalNodeInfo} {verified node},
          records[info.offset]? = some (.node verified node) →
            (records ++ [record])[info.offset]? = some (.node verified node) := by
        intro info verified node hrecord
        rw [List.getElem?_append_left (List.getElem?_eq_some_iff.mp hrecord).1, hrecord]
      rw [replayAll_concat] at hget
      cases record with
      | node verified node =>
          simp only [replayRecord, AssocMap.get_insert] at hget
          split at hget
          next heq =>
            obtain rfl := Option.some.inj hget
            exact ⟨verified, node, by simp [nodeInfo], heq.symm, rfl, rfl, rfl, rfl⟩
          next =>
            obtain ⟨verified, node, hrecord, hdescribes⟩ := ih hget
            exact ⟨verified, node, hkeep hrecord, hdescribes⟩
      | promotion promoted =>
          simp only [replayRecord] at hget
          by_cases heq : nodeHash = promoted
          · rw [heq, AssocMap.get_modify_self] at hget
            obtain ⟨old, hold, rfl⟩ := Option.map_eq_some_iff.mp hget
            obtain ⟨verified, node, hrecord, hhash, hdescribes⟩ := ih (heq ▸ hold)
            exact ⟨verified, node, hkeep hrecord, hhash, ⟨hdescribes.1, hdescribes.2,
              hdescribes.3, hdescribes.4⟩⟩
          · rw [AssocMap.get_modify_of_ne _ _ heq] at hget
            obtain ⟨verified, node, hrecord, hdescribes⟩ := ih hget
            exact ⟨verified, node, hkeep hrecord, hdescribes⟩
      | ratchetAdvance advanced chainKey epochId =>
          obtain ⟨verified, node, hrecord, hdescribes⟩ := ih hget
          exact ⟨verified, node, hkeep hrecord, hdescribes⟩

/-- Every node of the journal is replayed. -/
theorem replayAll_indexed (hmem : .node verified node ∈ records) :
    (((unreplayed files state packs).replayAll records).volatileNodes.get
      (hash node)).isSome = true := by
  induction records using List.reverseRecOn with
  | nil => cases hmem
  | append_singleton records record ih =>
      rw [replayAll_concat]
      rw [List.mem_append, List.mem_singleton] at hmem
      cases record with
      | node verified' node' =>
          simp only [replayRecord, AssocMap.get_insert]
          split
          next => rfl
          next hne =>
            refine ih (hmem.resolve_right fun heq => hne ?_)
            cases heq
            rfl
      | promotion promoted =>
          have hbefore := ih (hmem.resolve_right (by rintro ⟨⟩))
          simp only [replayRecord]
          by_cases heq : hash node = promoted
          · rw [heq] at hbefore ⊢
            rw [AssocMap.get_modify_self, Option.isSome_map]
            exact hbefore
          · rw [AssocMap.get_modify_of_ne _ _ heq]
            exact hbefore
      | ratchetAdvance advanced chainKey epochId => exact ih (hmem.resolve_right (by rintro ⟨⟩))

/-- No node of the journal is numbered beyond the last number of its sender. -/
theorem replayAll_sequences (hmem : .node verified node ∈ records) :
    node.seq ≤ ((unreplayed files state packs).replayAll records).getLastSequenceNumber
      node.senderPk := by
  induction records using List.reverseRecOn with
  | nil => cases hmem
  | append_singleton records record ih =>
      rw [replayAll_concat]
      rw [List.mem_append, List.mem_singleton] at hmem
      cases record with
      | node verified' node' =>
          rcases hmem with hold | heq
          · exact (ih hold).trans (le_noteSequence _ _ _ _)
          · cases heq
            exact seq_le_noteSequence _ _ _
      | promotion promoted
      | ratchetAdvance advanced chainKey epochId => exact ih (hmem.resolve_right nofun)

end

/-! ## Well-formed conversations -/

/-- Memory and files agree; the ids of the packs lie behind the clock. -/
structure WellFormed (clock : Nat) (context : ConversationContext) : Prop where
  saved : context.files.state.getD .initial = context.state
  opened : context.state.activePacks.mapM context.files.packs.get = some context.packs
  generation : context.state.activeJournalId ≠ 0 →
    context.files.journal.generationId = context.state.activeJournalId
  fresh : ∀ packId ∈ context.state.activePacks, packId ≤ clock
  replayed : context.volatileNodes = context.rebuilt.volatileNodes
  numbered : ∀ verified node, .node verified node ∈ context.files.journal.records →
    node.seq ≤ context.getLastSequenceNumber node.senderPk
  sound : ∀ pack ∈ context.packs, pack.Sound

variable {clock : Nat} {context : ConversationContext}

section

variable (h : context.WellFormed clock)
include h

theorem WellFormed.recorded (hget : context.volatileNodes.get nodeHash = some info) :
    ∃ verified node, context.files.journal.records[info.offset]? = some (.node verified node) ∧
      hash node = nodeHash ∧ info.Describes node :=
  replayAll_recorded _ _ _ _ (h.replayed ▸ hget)

theorem WellFormed.indexed (hmem : (verified, node) ∈ context.nodesToPack) :
    (context.volatileNodes.get (hash node)).isSome = true := by
  rw [h.replayed]
  exact replayAll_indexed _ _ _ _ (mem_nodesToPack.mp hmem)

/-- A later clock changes nothing. -/
theorem WellFormed.mono {later : Nat} (hle : clock ≤ later) :
    context.WellFormed later :=
  { h with fresh := fun packId hmem => (h.fresh packId hmem).trans hle }

theorem WellFormed.load_eq :
    load context.files = some context.rebuilt := by
  have hjournal : (if context.state.activeJournalId ≠ 0 ∧
      context.files.journal.generationId ≠ context.state.activeJournalId then
        (⟨context.state.activeJournalId, []⟩ : Journal)
      else context.files.journal) = context.files.journal := by
    rw [if_neg]
    rintro ⟨hactive, hne⟩
    exact hne (h.generation hactive)
  simp only [load, h.saved, h.opened, hjournal, Option.map_some]
  rfl

theorem WellFormed.rebuilt : context.rebuilt.WellFormed clock := by
  obtain ⟨volatileNodes, hotRatchets, lastSeqNumbers, childIndex, hframe⟩ :=
    context.rebuilt_frame
  have hfiles : context.rebuilt.files = context.files := by rw [hframe]
  have hstate : context.rebuilt.state = context.state := by rw [hframe]
  have hpacks : context.rebuilt.packs = context.packs := by rw [hframe]
  have hrebuilt : context.rebuilt.rebuilt = context.rebuilt := by
    unfold ConversationContext.rebuilt at hfiles hstate hpacks ⊢
    rw [hfiles, hstate, hpacks]
  exact
    { saved := by rw [hfiles, hstate, h.saved]
      opened := by rw [hfiles, hstate, hpacks, h.opened]
      generation := by rw [hfiles, hstate]; exact h.generation
      fresh := by rw [hstate]; exact h.fresh
      replayed := by rw [hrebuilt]
      numbered := fun _ _ hmem => replayAll_sequences _ _ _ _ (hfiles ▸ hmem)
      sound := by rw [hpacks]; exact h.sound }

end

theorem wellFormed_new (now : Nat) : (unreplayed (.new now) .initial []).WellFormed clock where
  saved := rfl
  opened := rfl
  generation h := absurd rfl h
  fresh _ hmem := absurd hmem List.not_mem_nil
  replayed := rfl
  numbered _ _ hmem := absurd hmem List.not_mem_nil
  sound _ hmem := absurd hmem List.not_mem_nil

/-! ## Writes keep a conversation well-formed -/

section

variable (h : context.WellFormed clock)
include h

theorem WellFormed.saveState {state : ConvState}
    (hpacks : state.activePacks = context.state.activePacks)
    (hjournal : state.activeJournalId = context.state.activeJournalId) :
    (context.saveState state).WellFormed clock where
  saved := rfl
  opened := hpacks ▸ h.opened
  generation := hjournal ▸ h.generation
  fresh := hpacks ▸ h.fresh
  replayed := h.replayed.trans (rebuilt_volatileNodes rfl rfl)
  numbered := h.numbered
  sound := h.sound

/-- Appending a record keeps a conversation well-formed when the index follows. -/
theorem WellFormed.append (record : JournalRecord) {after : ConversationContext}
    (hafter : ∃ volatileNodes hotRatchets lastSeqNumbers childIndex,
      after = { context.append record with
        volatileNodes := volatileNodes, hotRatchets := hotRatchets
        lastSeqNumbers := lastSeqNumbers, childIndex := childIndex })
    (hnodes : after.volatileNodes = (context.replayRecord
      (record, context.files.journal.records.length)).volatileNodes)
    (hmono : ∀ senderPk,
      context.getLastSequenceNumber senderPk ≤ after.getLastSequenceNumber senderPk)
    (hnumbered : ∀ verified node, record = .node verified node →
      node.seq ≤ after.getLastSequenceNumber node.senderPk) :
    after.WellFormed clock := by
  obtain ⟨volatileNodes, hotRatchets, lastSeqNumbers, childIndex, rfl⟩ := hafter
  refine ⟨h.saved, h.opened, h.generation, h.fresh, hnodes.trans ?_, ?_, h.sound⟩
  rotate_left
  · intro verified node hmem
    rcases List.mem_append.mp hmem with hold | hnew
    · exact (h.numbered verified node hold).trans (hmono _)
    · exact hnumbered verified node (List.mem_singleton.mp hnew).symm
  have hconcat : ConversationContext.rebuilt
      { context.append record with
        volatileNodes := volatileNodes, hotRatchets := hotRatchets
        lastSeqNumbers := lastSeqNumbers, childIndex := childIndex } =
      ((unreplayed (context.append record).files context.state context.packs).replayAll
        context.files.journal.records).replayRecord
          (record, context.files.journal.records.length) :=
    replayAll_concat _ _ _
  rw [hconcat]
  obtain ⟨_, _, _, _, hframe⟩ := (unreplayed (context.append record).files context.state
    context.packs).replayAll_frame context.files.journal.records
  refine replayRecord_volatileNodes ?_ ?_ _
  · rw [hframe]
    rfl
  · rw [h.replayed]
    refine replayAll_volatileNodes ?_ ?_ _ <;> rfl

theorem WellFormed.recordNode (node : MerkleNode) (verified : Bool) :
    (context.recordNode node verified).WellFormed clock :=
  h.append (.node verified node) ⟨_, _, _, _, rfl⟩ rfl (fun _ => le_noteSequence _ _ _ _)
    fun _ _ heq => by
      cases heq
      exact seq_le_noteSequence _ _ _

theorem WellFormed.markVerified (nodeHash : NodeHash) :
    (context.markVerified nodeHash).WellFormed clock := by
  unfold ConversationContext.markVerified
  cases context.volatileNodes.get nodeHash with
  | none => exact h
  | some info =>
      dsimp only
      split
      next => exact h
      next =>
        exact h.append (.promotion nodeHash) ⟨_, _, _, _, rfl⟩ rfl (fun _ => le_refl _)
          fun _ _ heq => by cases heq

theorem WellFormed.putRatchetKey (nodeHash : NodeHash) (chainKey : ChainKey) (epochId : Nat) :
    (context.putRatchetKey nodeHash chainKey epochId).WellFormed clock :=
  h.append (.ratchetAdvance nodeHash chainKey epochId) ⟨_, _, _, _, rfl⟩ rfl
    (fun _ => le_refl _) fun _ _ heq => by cases heq

theorem WellFormed.removeRatchetKey (nodeHash : NodeHash) :
    (context.removeRatchetKey nodeHash).WellFormed clock :=
  ⟨h.saved, h.opened, h.generation, h.fresh, h.replayed, h.numbered, h.sound⟩

/-- Files that take no part in opening the conversation's nodes. -/
theorem WellFormed.withFiles (keys : AssocMap Nat KConv) (opaqueStore : OpaqueStore) :
    { context with files := { context.files with
      keys := keys, opaqueStore := opaqueStore } }.WellFormed clock :=
  ⟨h.saved, h.opened, h.generation, h.fresh,
    h.replayed.trans (rebuilt_volatileNodes rfl rfl), h.numbered, h.sound⟩

theorem WellFormed.compactInternal :
    (context.compactInternal (clock + 1)).WellFormed (clock + 1) := by
  unfold ConversationContext.compactInternal
  split
  next => exact h.mono (Nat.le_succ clock)
  next =>
    have hfresh : clock + 1 ∉ context.state.activePacks := fun hmem =>
      absurd (h.fresh _ hmem) (by omega)
    refine ⟨rfl, ?_, fun _ => rfl, ?_, rfl, fun _ _ hmem => absurd hmem List.not_mem_nil, ?_⟩
    · dsimp only
      rw [List.mapM_append, mapM_insert_of_fresh hfresh, h.opened]
      simp [List.mapM_cons, AssocMap.get_insert_self]
    · intro packId hmem
      rw [List.mem_append, List.mem_singleton] at hmem
      rcases hmem with hold | rfl
      · exact (h.fresh packId hold).trans (Nat.le_succ clock)
      · exact le_refl _
    · intro pack hmem
      rw [List.mem_append, List.mem_singleton] at hmem
      rcases hmem with hold | rfl
      · exact h.sound pack hold
      · exact context.newPack_sound

end

end ConversationContext

end MerkleTox.Fs
