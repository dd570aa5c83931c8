import MerkleTox.Fs.Erasure
import MerkleTox.Fs.WireForms

/-! # Reopening a store

What opening the files again rebuilds of each conversation and of the index of hashes.
-/

namespace MerkleTox.Fs

open Library Proto MerkleTox.Core

namespace ConversationContext

/-! ## Sequence numbers -/

/-- The last sequence number that the slots give for a sender. -/
def slotSequence (slots : List RatchetSlot) (senderPk : PhysicalDevicePk) : Nat :=
  ((slots.foldl (fun seqNumbers slot => seqNumbers.insert slot.devicePk slot.lastSequenceNumber)
    (.empty : AssocMap PhysicalDevicePk Nat)).get senderPk).getD 0

/-- No slot and no node of the journal is numbered beyond a bound. -/
def NumbersAtMost (files : ConversationFiles) (senderPk : PhysicalDevicePk) (bound : Nat) :
    Prop :=
  slotSequence files.ratchet senderPk ≤ bound ∧
    ∀ verified node, .node verified node ∈ files.journal.records →
      node.senderPk = senderPk → node.seq ≤ bound

/-- The last sequence numbers are those of the files, which hold no ratchet record. -/
structure NumberedByFiles (context : ConversationContext) : Prop where
  keyless : ∀ nodeHash chainKey epochId,
    .ratchetAdvance nodeHash chainKey epochId ∉ context.files.journal.records
  least : ∀ senderPk bound, context.getLastSequenceNumber senderPk ≤ bound ↔
    NumbersAtMost context.files senderPk bound

theorem slotSequence_concat (slots : List RatchetSlot) (slot : RatchetSlot)
    (senderPk : PhysicalDevicePk) :
    slotSequence (slots ++ [slot]) senderPk =
      if senderPk = slot.devicePk then slot.lastSequenceNumber
      else slotSequence slots senderPk := by
  rw [slotSequence, List.foldl_append, List.foldl_cons, List.foldl_nil, AssocMap.get_insert]
  split <;> rfl

variable {slots : List RatchetSlot}

/-- Updating the slots of a device, all at once. -/
theorem slotSequence_map {f : RatchetSlot → RatchetSlot} (devicePk : PhysicalDevicePk) (seq : Nat)
    (hdevice : ∀ slot, (f slot).devicePk = slot.devicePk)
    (hseq : ∀ slot, (f slot).lastSequenceNumber =
      if slot.devicePk = devicePk then max seq slot.lastSequenceNumber
      else slot.lastSequenceNumber) (senderPk : PhysicalDevicePk) :
    slotSequence (slots.map f) senderPk =
      if senderPk = devicePk ∧ slots.any fun slot => slot.devicePk = devicePk then
        max seq (slotSequence slots senderPk)
      else slotSequence slots senderPk := by
  induction slots using List.reverseRecOn with
  | nil => simp [slotSequence]
  | append_singleton slots slot ih =>
      rw [List.map_append, List.map_cons, List.map_nil, slotSequence_concat, hdevice, hseq, ih,
        slotSequence_concat, List.any_append]
      by_cases hsender : senderPk = slot.devicePk
      · by_cases hdevicePk : slot.devicePk = devicePk <;> simp [hsender, hdevicePk]
      · by_cases hdevicePk : slot.devicePk = devicePk
        · have hne : senderPk ≠ devicePk := fun heq => hsender (heq.trans hdevicePk.symm)
          simp [hsender, hne]
        · simp [hsender, hdevicePk]

theorem slotSequence_eq_zero {devicePk : PhysicalDevicePk}
    (hnone : (slots.any fun slot => slot.devicePk = devicePk) = false) :
    slotSequence slots devicePk = 0 := by
  induction slots using List.reverseRecOn with
  | nil => rfl
  | append_singleton slots slot ih =>
      rw [List.any_append, Bool.or_eq_false_iff] at hnone
      rw [slotSequence_concat, if_neg, ih hnone.1]
      rintro rfl
      simp at hnone

theorem slotSequence_updateSlot (slots : List RatchetSlot)
    (update : PhysicalDevicePk × ChainKey × Nat × Nat) (senderPk : PhysicalDevicePk) :
    slotSequence (updateSlot slots update) senderPk =
      if senderPk = update.1 then max update.2.2.1 (slotSequence slots senderPk)
      else slotSequence slots senderPk := by
  obtain ⟨devicePk, key, seq, epoch⟩ := update
  simp only [updateSlot]
  cases hany : slots.any fun slot => slot.devicePk = devicePk with
  | true =>
      rw [if_pos rfl, slotSequence_map devicePk seq, hany]
      · simp
      · intro slot
        split
        next h => split <;> simp [h.1]
        next => rfl
      · intro slot
        by_cases hdevice : slot.devicePk = devicePk
        · by_cases hlt : slot.lastSequenceNumber < seq
          · rw [if_pos ⟨hdevice, hlt⟩, if_pos hdevice, max_eq_left hlt.le]
            split <;> rfl
          · rw [if_neg fun h => hlt h.2, if_pos hdevice, max_eq_right (not_lt.mp hlt)]
        · rw [if_neg fun h => hdevice h.1, if_neg hdevice]
  | false =>
      rw [if_neg Bool.false_ne_true, slotSequence_concat]
      split
      next heq => rw [heq, slotSequence_eq_zero hany, max_eq_left (Nat.zero_le _)]
      next => rfl

variable (updates : List (PhysicalDevicePk × ChainKey × Nat × Nat))

theorem slotSequence_updateSlots_le_iff (slots : List RatchetSlot)
    (senderPk : PhysicalDevicePk) (bound : Nat) :
    slotSequence (updates.foldl updateSlot slots) senderPk ≤ bound ↔
      slotSequence slots senderPk ≤ bound ∧
        ∀ update ∈ updates, update.1 = senderPk → update.2.2.1 ≤ bound := by
  induction updates generalizing slots with
  | nil => simp
  | cons first rest ih =>
      rw [List.foldl_cons, ih, slotSequence_updateSlot, List.forall_mem_cons]
      by_cases heq : senderPk = first.1
      · rw [if_pos heq, max_le_iff]
        simp only [heq, true_implies]
        tauto
      · rw [if_neg heq]
        simp only [Ne.symm heq, false_implies, true_and]

theorem noteUpdates_le_iff
    (seqNumbers : AssocMap PhysicalDevicePk Nat) (senderPk : PhysicalDevicePk) (bound : Nat) :
    ((updates.foldl (fun seqNumbers update => noteSequence seqNumbers update.1 update.2.2.1)
        seqNumbers).get senderPk).getD 0 ≤ bound ↔
      (seqNumbers.get senderPk).getD 0 ≤ bound ∧
        ∀ update ∈ updates, update.1 = senderPk → update.2.2.1 ≤ bound := by
  induction updates generalizing seqNumbers with
  | nil => simp
  | cons first rest ih =>
      rw [List.foldl_cons, ih, getLastSequenceNumber_noteSequence, List.forall_mem_cons]
      by_cases heq : senderPk = first.1
      · rw [if_pos heq, max_le_iff]
        simp only [heq, true_implies]
        tauto
      · rw [if_neg heq]
        simp only [Ne.symm heq, false_implies, true_and]

section Journal

/-- Every node of a journal without ratchet records has an update of its sender. -/
theorem exists_noteUpdate (volatileNodes : AssocMap NodeHash JournalNodeInfo)
    {records : List JournalRecord}
    (hkeyless : ∀ nodeHash chainKey epochId, .ratchetAdvance nodeHash chainKey epochId ∉ records)
    {verified : Bool} {node : MerkleNode} (hmem : .node verified node ∈ records) :
    ∃ update, (records.foldl (noteUpdate volatileNodes) .empty).get node.senderPk = some update ∧
      node.seq ≤ update.2.1 := by
  induction records using List.reverseRecOn with
  | nil => cases hmem
  | append_singleton records record ih =>
      have hbefore := ih fun _ _ _ hrecord => hkeyless _ _ _ (List.mem_append_left _ hrecord)
      rw [List.mem_append, List.mem_singleton] at hmem
      rw [List.foldl_append, List.foldl_cons, List.foldl_nil]
      cases record with
      | node verified' node' =>
          simp only [noteUpdate, AssocMap.get_insert]
          split
          next heq =>
            refine ⟨_, rfl, ?_⟩
            rcases hmem with hold | hnew
            · obtain ⟨update, hupdate, hle⟩ := hbefore hold
              rw [← heq, hupdate]
              exact hle.trans (le_max_left _ _)
            · cases hnew
              exact le_max_right _ _
          next hne =>
            refine hbefore (hmem.resolve_right fun heq => hne ?_)
            cases heq
            rfl
      | promotion promoted => exact hbefore (hmem.resolve_right fun heq => by cases heq)
      | ratchetAdvance nodeHash chainKey epochId =>
          exact absurd (List.mem_append_right _ List.mem_cons_self) (hkeyless nodeHash chainKey
            epochId)

variable [IndexSearch] [Primitives]

/-- A replay numbers a sender by its slot and by its nodes. -/
theorem replayAll_sequence_le_iff (files : ConversationFiles) (state : ConvState)
    (packs : List Pack) (records : List JournalRecord) (senderPk : PhysicalDevicePk)
    (bound : Nat) :
    ((unreplayed files state packs).replayAll records).getLastSequenceNumber senderPk ≤ bound ↔
      slotSequence files.ratchet senderPk ≤ bound ∧
        ∀ verified node, .node verified node ∈ records → node.senderPk = senderPk →
          node.seq ≤ bound := by
  induction records using List.reverseRecOn with
  | nil =>
      refine (and_iff_left ?_).symm
      exact fun _ _ hmem => absurd hmem List.not_mem_nil
  | append_singleton records record ih =>
      -- Records other than nodes carry no sequence number.
      have hother : (∀ verified node, record ≠ .node verified node) →
          ((∀ verified node, .node verified node ∈ records ++ [record] →
              node.senderPk = senderPk → node.seq ≤ bound) ↔
            ∀ verified node, .node verified node ∈ records → node.senderPk = senderPk →
              node.seq ≤ bound) := by
        intro hne
        simp only [List.mem_append, List.mem_singleton, (hne _ _).symm, or_false]
      rw [replayAll_concat]
      cases record with
      | node verified node =>
          rw [getLastSequenceNumber, replayRecord]
          rw [getLastSequenceNumber_noteSequence]
          have hall : (∀ verified' node', .node verified' node' ∈
                records ++ [JournalRecord.node verified node] →
                  node'.senderPk = senderPk → node'.seq ≤ bound) ↔
              (∀ verified' node', .node verified' node' ∈ records →
                node'.senderPk = senderPk → node'.seq ≤ bound) ∧
              (node.senderPk = senderPk → node.seq ≤ bound) := by
            constructor
            · refine fun h => ⟨fun _ _ hmem => h _ _ (List.mem_append_left _ hmem), ?_⟩
              exact h verified node (List.mem_append_right _ List.mem_cons_self)
            · rintro ⟨hold, hnew⟩ verified' node' hmem
              rcases List.mem_append.mp hmem with hmem | hmem
              · exact hold _ _ hmem
              · cases List.mem_singleton.mp hmem
                exact hnew
          rw [hall, ← and_assoc, ← ih]
          split
          next heq =>
            subst heq
            rw [max_le_iff, and_comm]
            exact and_congr_right fun _ => ⟨fun hle _ => hle, fun h => h rfl⟩
          next hne => exact (and_iff_left fun heq => absurd heq.symm hne).symm
      | promotion promoted => exact ih.trans (and_congr_right fun _ =>
          (hother fun _ _ heq => by cases heq).symm)
      | ratchetAdvance nodeHash chainKey epochId =>
          exact ih.trans (and_congr_right fun _ =>
            (hother fun _ _ heq => by cases heq).symm)

theorem rebuilt_sequence_le_iff (context : ConversationContext) (senderPk : PhysicalDevicePk)
    (bound : Nat) :
    context.rebuilt.getLastSequenceNumber senderPk ≤ bound ↔
      NumbersAtMost context.files senderPk bound :=
  replayAll_sequence_le_iff _ _ _ _ _ _

variable {context : ConversationContext}

/-- The numbers of a conversation do not change when its files are opened again. -/
theorem NumberedByFiles.rebuilt_sequence (h : context.NumberedByFiles)
    (senderPk : PhysicalDevicePk) :
    context.rebuilt.getLastSequenceNumber senderPk = context.getLastSequenceNumber senderPk :=
  le_antisymm
    ((rebuilt_sequence_le_iff _ _ _).mpr ((h.least _ _).mp le_rfl))
    ((h.least _ _).mpr ((rebuilt_sequence_le_iff _ _ _).mp le_rfl))

omit [IndexSearch] [Primitives] in
/-- Appending a record that is neither a node nor a ratchet key. -/
theorem NumberedByFiles.append (h : context.NumberedByFiles) (record : JournalRecord)
    (hnode : ∀ verified node, record ≠ .node verified node)
    (hratchet : ∀ nodeHash chainKey epochId,
      record ≠ .ratchetAdvance nodeHash chainKey epochId) :
    (context.append record).NumberedByFiles where
  keyless nodeHash chainKey epochId hmem :=
    h.keyless _ _ _ ((mem_append_ratchet (hratchet _ _ _)).mp hmem)
  least senderPk bound := by
    refine (h.least senderPk bound).trans (and_congr_right fun _ => ?_)
    simp only [ConversationContext.append, Journal.append, List.mem_append, List.mem_singleton,
      (hnode _ _).symm, or_false]

theorem NumberedByFiles.stable : FsStore.Stable NumberedByFiles where
  fresh now := by
    refine ⟨fun _ _ _ hmem => absurd hmem List.not_mem_nil, fun senderPk bound => ?_⟩
    -- Nothing is written yet, and every bound holds.
    refine iff_of_true (Nat.zero_le _) ⟨Nat.zero_le _, ?_⟩
    exact fun _ _ hmem => absurd hmem List.not_mem_nil
  saveState _ h := ⟨h.keyless, h.least⟩
  withFiles _ _ h := ⟨h.keyless, h.least⟩
  recordNode {context} node verified h := by
    refine ⟨fun _ _ _ hmem => h.keyless _ _ _
      ((mem_append_ratchet fun heq => by cases heq).mp hmem), fun senderPk bound => ?_⟩
    have hreplay := replayAll_sequence_le_iff context.files context.state context.packs
      (context.files.journal.records ++ [.node verified node]) senderPk bound
    refine Iff.trans ?_ hreplay
    rw [replayAll_concat, getLastSequenceNumber, getLastSequenceNumber,
      ConversationContext.recordNode, replayRecord, getLastSequenceNumber_noteSequence,
      getLastSequenceNumber_noteSequence]
    have hsame := h.rebuilt_sequence senderPk
    rw [getLastSequenceNumber, getLastSequenceNumber] at hsame
    rw [← hsame]
    rfl
  markVerified {context} nodeHash h := by
    rw [ConversationContext.markVerified]
    split
    · split
      · exact h
      · have hpromoted := h.append (.promotion nodeHash)
          (fun _ _ heq => by cases heq) fun _ _ _ heq => by cases heq
        exact ⟨hpromoted.keyless, hpromoted.least⟩
    · exact h
  removeRatchetKey _ h := ⟨h.keyless, h.least⟩
  compactInternal {context} packId h := by
    rw [ConversationContext.compactInternal]
    split
    · exact h
    · refine ⟨fun _ _ _ hmem => absurd hmem List.not_mem_nil, fun senderPk bound => ?_⟩
      -- Compaction empties the journal, and its numbers go to the slots.
      refine (noteUpdates_le_iff _ _ _ _).trans ?_
      have hlive := h.least senderPk bound
      rw [getLastSequenceNumber] at hlive
      rw [hlive]
      refine Iff.trans ?_ (and_iff_left fun _ _ hmem => absurd hmem List.not_mem_nil).symm
      rw [slotSequence_updateSlots_le_iff]
      constructor
      · exact fun hbound => ⟨hbound.1.1, hbound.2⟩
      · refine fun hbound => ⟨⟨hbound.1, fun verified node hmem hsender => ?_⟩, hbound.2⟩
        obtain ⟨update, hupdate, hle⟩ :=
          exists_noteUpdate context.volatileNodes h.keyless hmem
        exact hle.trans (hbound.2 _ (AssocMap.get_eq_some_iff.mp hupdate) hsender)
  rebuilt {context} h := by
    obtain ⟨_, _, _, _, hframe⟩ := context.rebuilt_frame
    have hfiles : context.rebuilt.files = context.files := by rw [hframe]
    refine ⟨hfiles ▸ h.keyless, fun senderPk bound => ?_⟩
    rw [rebuilt_sequence_le_iff, hfiles]

/-! ## Children -/

omit [IndexSearch] [Primitives] in
/-- A node of the journal has the parent. -/
def hasJournalChild (context : ConversationContext) (nodeHash : NodeHash) : Bool :=
  context.nodesToPack.any fun entry : Bool × MerkleNode => entry.2.parents.contains nodeHash

theorem replayAll_hasChildren (files : ConversationFiles) (state : ConvState)
    (packs : List Pack) (records : List JournalRecord) (nodeHash : NodeHash) :
    ((unreplayed files state packs).replayAll records).hasChildren nodeHash = true ↔
      ∃ verified node, .node verified node ∈ records ∧ nodeHash ∈ node.parents := by
  induction records using List.reverseRecOn with
  | nil => simp [replayAll, unreplayed, hasChildren]
  | append_singleton records record ih =>
      have hother : (∀ verified node, record ≠ .node verified node) →
          ((∃ verified node, .node verified node ∈ records ++ [record] ∧
              nodeHash ∈ node.parents) ↔
            ∃ verified node, .node verified node ∈ records ∧ nodeHash ∈ node.parents) := by
        intro hne
        simp only [List.mem_append, List.mem_singleton, (hne _ _).symm, or_false]
      rw [replayAll_concat]
      cases record with
      | node verified node =>
          rw [hasChildren, replayRecord, InMemoryStore.noteChild_any, Bool.or_eq_true,
            List.contains_iff_mem]
          rw [hasChildren] at ih
          rw [ih]
          constructor
          · rintro (hnew | ⟨verified', node', hmem, hparent⟩)
            · exact ⟨verified, node, List.mem_append_right _ List.mem_cons_self, hnew⟩
            · exact ⟨verified', node', List.mem_append_left _ hmem, hparent⟩
          · rintro ⟨verified', node', hmem, hparent⟩
            rcases List.mem_append.mp hmem with hold | hnew
            · exact .inr ⟨verified', node', hold, hparent⟩
            · cases List.mem_singleton.mp hnew
              exact .inl hparent
      | promotion promoted => exact ih.trans (hother fun _ _ heq => by cases heq).symm
      | ratchetAdvance advanced chainKey epochId =>
          exact ih.trans (hother fun _ _ heq => by cases heq).symm

theorem rebuilt_hasChildren (context : ConversationContext) (nodeHash : NodeHash) :
    context.rebuilt.hasChildren nodeHash = context.hasJournalChild nodeHash := by
  rw [Bool.eq_iff_iff, rebuilt, replayAll_hasChildren, hasJournalChild, List.any_eq_true]
  constructor
  · rintro ⟨verified, node, hmem, hparent⟩
    exact ⟨(verified, node), mem_nodesToPack.mpr hmem, List.contains_iff_mem.mpr hparent⟩
  · rintro ⟨⟨verified, node⟩, hmem, hparent⟩
    exact ⟨verified, node, mem_nodesToPack.mp hmem, List.contains_iff_mem.mp hparent⟩

/-! ## What a rebuilt conversation reads -/

variable {clock : Nat}

/-- Memory that is rebuilt from the files differs in ratchet keys, numbers and children. -/
theorem WellFormed.rebuilt_eq (h : context.WellFormed clock) :
    ∃ hotRatchets lastSeqNumbers childIndex,
      context.rebuilt = { context with
        hotRatchets := hotRatchets, lastSeqNumbers := lastSeqNumbers
        childIndex := childIndex } := by
  obtain ⟨volatileNodes, hotRatchets, lastSeqNumbers, childIndex, hframe⟩ :=
    context.rebuilt_frame
  have hnodes := h.replayed
  rw [hframe] at hnodes ⊢
  exact ⟨hotRatchets, lastSeqNumbers, childIndex, by rw [hnodes]⟩

theorem WellFormed.rebuilt_loadedHashes (h : context.WellFormed clock) :
    context.rebuilt.loadedHashes = context.loadedHashes := by
  obtain ⟨_, _, _, heq⟩ := h.rebuilt_eq
  rw [heq]
  rfl

/-- A conversation that has lost no number and no key agrees with its rebuilt form, but for
the children. -/
theorem NumberedByFiles.agrees_rebuilt (h : context.NumberedByFiles)
    (hwell : context.WellFormed clock)
    (hforgets : ∀ nodeHash, context.getRatchetKey nodeHash = none) :
    context.Agrees (fun _ => False) context.rebuilt := by
  have hratchets : ∀ nodeHash, context.rebuilt.getRatchetKey nodeHash = none := by
    intro nodeHash
    by_contra hsome
    obtain ⟨chainKey, epochId, hmem⟩ :=
      (rebuilt_ratchet _ _).mp (Option.isSome_iff_ne_none.mpr hsome)
    exact h.keyless _ _ _ hmem
  have hnumbers := h.rebuilt_sequence
  obtain ⟨_, _, _, heq⟩ := hwell.rebuilt_eq
  rw [heq] at hratchets hnumbers ⊢
  exact
    { getNode := False.elim, isVerified := False.elim, getRank := False.elim
      getNodeType := False.elim, getAdminDistance := False.elim, hasChildren := False.elim
      speculative := .refl _
      counts := rfl
      verified := fun _ => .refl _
      inRange := fun _ => .refl _
      sequences := hnumbers
      ratchets := fun nodeHash => (hratchets nodeHash).trans (hforgets nodeHash).symm }

/-- What one conversation has of a hash, another one reads back from its files. -/
structure ReadsBack [WireFormat] (nodeHash : NodeHash) (named loaded : ConversationContext) :
    Prop where
  getNode : loaded.getNode nodeHash = named.getNode nodeHash
  isVerified : loaded.isVerified nodeHash = named.isVerified nodeHash
  getRank : loaded.getRank nodeHash = named.getRank nodeHash
  getNodeType : loaded.getNodeType nodeHash = named.getNodeType nodeHash
  getAdminDistance : loaded.getAdminDistance nodeHash = named.getAdminDistance nodeHash
  getWireNode : loaded.getWireNode nodeHash = named.getWireNode nodeHash
  hasChildren : loaded.hasJournalChild nodeHash = named.hasChildren nodeHash

theorem WellFormed.readsBack_iff [WireFormat] (h : context.WellFormed clock) (nodeHash : NodeHash)
    (named : ConversationContext) :
    named.ReadsBack nodeHash context ↔
      named.LooksAlike nodeHash context.rebuilt ∧
        context.rebuilt.getWireNode nodeHash = named.getWireNode nodeHash := by
  have hchildren := context.rebuilt_hasChildren nodeHash
  obtain ⟨_, _, _, heq⟩ := h.rebuilt_eq
  rw [heq] at hchildren ⊢
  constructor
  · exact fun hreads => ⟨⟨hreads.getNode, hreads.isVerified, hreads.getRank, hreads.getNodeType,
      hreads.getAdminDistance, hchildren.trans hreads.hasChildren⟩, hreads.getWireNode⟩
  · exact fun ⟨hlooks, hwire⟩ => ⟨hlooks.getNode, hlooks.isVerified, hlooks.getRank,
      hlooks.getNodeType, hlooks.getAdminDistance, hwire, hchildren.symm.trans hlooks.hasChildren⟩

end Journal

end ConversationContext

section Reopening

variable [IndexSearch] [Primitives]

namespace FsStore

/-! ## The index of hashes -/

omit [IndexSearch] in
/-- Opening the conversation puts the hash into the index. -/
def Loads (store : FsStore) (conversationId : ConversationId) (nodeHash : NodeHash) : Prop :=
  ∃ context, store.context conversationId = some context ∧ nodeHash ∈ context.loadedHashes

omit [IndexSearch] [Primitives] in
theorem get_indexAll (hashes : List NodeHash) (index : AssocMap NodeHash ConversationId)
    (conversationId : ConversationId) (nodeHash : NodeHash) :
    (hashes.foldl (fun index nodeHash => index.insert nodeHash conversationId) index).get
        nodeHash =
      if nodeHash ∈ hashes then some conversationId else index.get nodeHash := by
  induction hashes generalizing index with
  | nil => rfl
  | cons first rest ih =>
      rw [List.foldl_cons, ih, AssocMap.get_insert]
      simp only [List.mem_cons]
      by_cases hrest : nodeHash ∈ rest
      · rw [if_pos hrest, if_pos (.inr hrest)]
      · simp only [hrest, or_false, if_false]

/-- The index that opening the conversations in an order builds. -/
def discovered (store : FsStore) (ids : List ConversationId) :
    AssocMap NodeHash ConversationId :=
  (ids.foldl (discover store.files) ⟨.empty, .empty, store.clock⟩).nodeToConv

variable {store : FsStore}

/-- A conversation that loads a hash takes it over from those before it. -/
theorem WellFormed.discovered_concat (h : store.WellFormed) (ids : List ConversationId)
    (last conversationId : ConversationId) (nodeHash : NodeHash) :
    (store.discovered (ids ++ [last])).get nodeHash = some conversationId ↔
      (last = conversationId ∧ store.Loads last nodeHash) ∨
        (¬ store.Loads last nodeHash ∧
          (store.discovered ids).get nodeHash = some conversationId) := by
  rw [discovered, discovered, List.foldl_append, List.foldl_cons, List.foldl_nil]
  generalize ids.foldl (discover store.files) ⟨.empty, .empty, store.clock⟩ = opened
  rw [discover, h.load, Loads]
  cases hcontext : store.context last with
  | none => simp
  | some context =>
      have hloaded := (h _ _ hcontext).rebuilt_loadedHashes
      simp only [Option.map_some, hloaded, get_indexAll, Option.some.injEq]
      by_cases hmem : nodeHash ∈ context.loadedHashes
      · simp [hmem]
      · simp [hmem]

variable {conversationId : ConversationId} {ids : List ConversationId} {nodeHash : NodeHash}

theorem WellFormed.loads_of_discovered (h : store.WellFormed)
    (hget : (store.discovered ids).get nodeHash = some conversationId) :
    store.Loads conversationId nodeHash := by
  induction ids using List.reverseRecOn with
  | nil => cases hget
  | append_singleton ids last ih =>
      obtain ⟨rfl, hloads⟩ | ⟨-, hearlier⟩ := (h.discovered_concat _ _ _ _).mp hget
      · exact hloads
      · exact ih hearlier

theorem WellFormed.discovered_of_loads (h : store.WellFormed) (hmem : conversationId ∈ ids)
    (hloads : store.Loads conversationId nodeHash) :
    ∃ named, (store.discovered ids).get nodeHash = some named := by
  induction ids using List.reverseRecOn with
  | nil => cases hmem
  | append_singleton ids last ih =>
      by_cases hlast : store.Loads last nodeHash
      · exact ⟨last, (h.discovered_concat _ _ _ _).mpr (.inl ⟨rfl, hlast⟩)⟩
      · rcases List.mem_append.mp hmem with hold | hnew
        · obtain ⟨named, hnamed⟩ := ih hold
          exact ⟨named, (h.discovered_concat _ _ _ _).mpr (.inr ⟨hlast, hnamed⟩)⟩
        · exact absurd (List.mem_singleton.mp hnew ▸ hloads) hlast

/-- All reads give the same answers. -/
structure SameAnswers [WireFormat] (before after : FsStore) : Prop
    extends SameNodeAnswers before after where
  getWireNode : ∀ nodeHash, after.getWireNode nodeHash = before.getWireNode nodeHash
  getOpaqueNodeHashes : ∀ conversationId,
    after.getOpaqueNodeHashes conversationId = before.getOpaqueNodeHashes conversationId
  getHeads : ∀ conversationId, after.getHeads conversationId = before.getHeads conversationId
  getAdminHeads : ∀ conversationId,
    after.getAdminHeads conversationId = before.getAdminHeads conversationId
  getConversationKeys : ∀ conversationId,
    after.getConversationKeys conversationId = before.getConversationKeys conversationId
  getEpochMetadata : ∀ conversationId,
    after.getEpochMetadata conversationId = before.getEpochMetadata conversationId

/-- The index of hashes has what the files load, and every conversation that loads a hash
reads it as the one that the index names. -/
structure Reloadable [WireFormat] (store : FsStore) : Prop where
  indexed : ∀ nodeHash, store.hasNode nodeHash = true ↔
    ∃ conversationId, store.Loads conversationId nodeHash
  readsBack : ∀ nodeHash named conversationId context,
    store.nodeToConv.get nodeHash = some named →
      store.context conversationId = some context → nodeHash ∈ context.loadedHashes →
        (store.view named).ReadsBack nodeHash context

section Reopen

variable [WireFormat]

omit [WireFormat] in
theorem WellFormed.view_reopen (h : store.WellFormed) (order : List ConversationId)
    (conversationId : ConversationId) :
    (store.reopen order).view conversationId =
      match store.context conversationId with
      | some context => context.rebuilt
      | none => .unreplayed (.new 0) .initial [] := by
  rw [FsStore.view, h.context_reopen]
  cases store.context conversationId <;> rfl

omit [WireFormat] in
theorem WellFormed.hasNode_reopen (h : store.WellFormed) (order : List ConversationId)
    (nodeHash : NodeHash) :
    (store.reopen order).hasNode nodeHash = true ↔
      ∃ conversationId, store.Loads conversationId nodeHash := by
  rw [hasNode, AssocMap.contains_eq, Option.isSome_iff_exists]
  constructor
  · rintro ⟨conversationId, hget⟩
    exact ⟨conversationId, h.loads_of_discovered hget⟩
  · rintro ⟨conversationId, hloads⟩
    have hopen := hloads
    obtain ⟨context, hcontext, -⟩ := hopen
    exact h.discovered_of_loads (mem_directory.mpr (by rw [hcontext]; rfl)) hloads

/-- A reloadable store answers alike after every reopening. -/
theorem Reloadable.same (hreload : store.Reloadable) (h : store.WellFormed)
    (hnumbered : store.Everywhere fun _ => ConversationContext.NumberedByFiles)
    (hforgets : ∀ nodeHash,
      store.Everywhere fun _ => ConversationContext.Forgets nodeHash)
    (order : List ConversationId) : SameAnswers store (store.reopen order) := by
  -- A hash may be indexed under another conversation afterwards, but the context found there
  -- looks alike to every query of this hash.
  have hindex : ∀ nodeHash,
      (store.nodeToConv.get nodeHash = none ∧
        (store.reopen order).nodeToConv.get nodeHash = none) ∨
      ∃ named named', store.nodeToConv.get nodeHash = some named ∧
        (store.reopen order).nodeToConv.get nodeHash = some named' ∧
        (store.view named).LooksAlike nodeHash ((store.reopen order).view named') ∧
        ((store.reopen order).view named').getWireNode nodeHash =
          (store.view named).getWireNode nodeHash := by
    intro nodeHash
    have hhas : (store.reopen order).hasNode nodeHash = store.hasNode nodeHash := by
      rw [Bool.eq_iff_iff, h.hasNode_reopen, hreload.indexed]
    rw [hasNode, hasNode, AssocMap.contains_eq, AssocMap.contains_eq] at hhas
    cases hnamed : store.nodeToConv.get nodeHash with
    | none =>
        rw [hnamed] at hhas
        exact .inl ⟨rfl, Option.isNone_iff_eq_none.mp (Option.isSome_eq_false_iff.mp hhas)⟩
    | some named =>
        rw [hnamed] at hhas
        obtain ⟨named', hnamed'⟩ := Option.isSome_iff_exists.mp hhas
        obtain ⟨context, hcontext, hmem⟩ := h.loads_of_discovered hnamed'
        have hreads := hreload.readsBack nodeHash named named' context hnamed hcontext hmem
        rw [(h _ _ hcontext).readsBack_iff] at hreads
        refine .inr ⟨named, named', rfl, hnamed', ?_⟩
        rw [h.view_reopen, hcontext]
        exact hreads
  have hnodes : SameNodeAnswers store (store.reopen order) := by
    refine sameNodeAnswers_of_named (fun nodeHash => ?_) fun conversationId => ?_
    · obtain hnone | ⟨named, named', hnamed, hnamed', hlooks, -⟩ := hindex nodeHash
      · exact .inl hnone
      · exact .inr ⟨named, named', hnamed, hnamed', hlooks⟩
    · rw [h.view_reopen, view]
      cases hcontext : store.context conversationId with
      | none => exact .refl _ _
      | some context =>
          exact (hnumbered _ _ hcontext).agrees_rebuilt (h _ _ hcontext) fun nodeHash =>
            (hforgets nodeHash _ _ hcontext).memory
  -- The other queries read the files and the journalled state, which reopening leaves alone.
  have hfiles : ∀ {α : Type} (read : ConversationContext → α),
      (∀ context : ConversationContext, read context.rebuilt = read context) →
      ∀ conversationId, ((store.reopen order).context conversationId).map read =
        (store.context conversationId).map read := by
    intro α read hread conversationId
    rw [h.context_reopen, Option.map_map]
    cases store.context conversationId with
    | none => rfl
    | some context => exact congrArg some (hread context)
  have hframe : ∀ context : ConversationContext,
      context.rebuilt.files = context.files ∧ context.rebuilt.state = context.state := by
    intro context
    obtain ⟨_, _, _, _, heq⟩ := context.rebuilt_frame
    rw [heq]
    exact ⟨rfl, rfl⟩
  refine ⟨hnodes, fun nodeHash => ?_, fun conversationId => ?_, fun conversationId => ?_,
    fun conversationId => ?_, fun conversationId => ?_, fun conversationId => ?_⟩
  · rw [getWireNode_view, getWireNode_view]
    obtain ⟨hnone, hnone'⟩ | ⟨named, named', hnamed, hnamed', -, hwire⟩ := hindex nodeHash
    · rw [hnone, hnone']
      rfl
    · rw [hnamed, hnamed']
      exact hwire
  · rw [getOpaqueNodeHashes, getOpaqueNodeHashes, hfiles _ fun context => by rw [(hframe _).1]]
  · rw [getHeads, getHeads, hfiles _ fun context => by rw [(hframe _).2]]
  · rw [getAdminHeads, getAdminHeads, hfiles _ fun context => by rw [(hframe _).2]]
  · rw [getConversationKeys, getConversationKeys]
    rw [hfiles _ fun context => by
      rw [ConversationContext.getConversationKeys, (hframe _).1]
      rfl]
  · have hread := hfiles ConversationContext.getEpochMetadata (fun context => by
      rw [ConversationContext.getEpochMetadata, (hframe _).2]
      rfl) conversationId
    have hbind : ∀ context : Option ConversationContext,
        context.bind ConversationContext.getEpochMetadata =
          (context.map ConversationContext.getEpochMetadata).bind id := by
      rintro (_ | context) <;> rfl
    rw [getEpochMetadata, getEpochMetadata, hbind, hread, ← hbind]

end Reopen

/-! ## Runs -/

section Runs

variable [WireFormat]

end Runs

end FsStore

end Reopening

namespace Reopening

open Core.Reference Reference

/-- A wire form that was stored and no node of its hash. -/
def received : FsStore := FsStore.new.run [.putWireNode room (hash genesis) (wireOf 0 [1, 2, 3])]

end Reopening

end MerkleTox.Fs
