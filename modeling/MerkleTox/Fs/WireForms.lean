import MerkleTox.Fs.Answers
import MerkleTox.Fs.Reference

/-! # Wire forms and nodes of one hash

Wire forms and nodes share the index of hashes that gates every read, so a write of one
kind can change what is read of the other. For each write, when it does not.
-/

namespace MerkleTox.Fs

open Library Proto MerkleTox.Core

section Independence

variable [IndexSearch] [Primitives]

namespace ConversationContext

/-- Two states of a conversation have the same node of a hash, or both none. -/
structure SameNode (nodeHash : NodeHash) (left right : ConversationContext) : Prop where
  getNode : left.getNode nodeHash = right.getNode nodeHash
  isVerified : left.isVerified nodeHash = right.isVerified nodeHash
  getRank : left.getRank nodeHash = right.getRank nodeHash
  getNodeType : left.getNodeType nodeHash = right.getNodeType nodeHash

theorem SameNode.trans {nodeHash : NodeHash} {first second third : ConversationContext}
    (hfirst : SameNode nodeHash first second) (hsecond : SameNode nodeHash second third) :
    SameNode nodeHash first third :=
  ⟨hfirst.getNode.trans hsecond.getNode, hfirst.isVerified.trans hsecond.isVerified,
    hfirst.getRank.trans hsecond.getRank, hfirst.getNodeType.trans hsecond.getNodeType⟩

omit [IndexSearch] [Primitives] in
/-- The wire form of a hash in the files of a conversation. -/
def getWireNode [WireFormat] (context : ConversationContext) (nodeHash : NodeHash) :
    Option WireNode :=
  match context.files.opaqueStore.getNode nodeHash with
  | .ok (some data) => WireFormat.deserializeWire data
  | _ => none

omit [IndexSearch] [Primitives] in
theorem getWireNode_congr [WireFormat] {left right : ConversationContext}
    (hwires : left.files.opaqueStore = right.files.opaqueStore) (nodeHash : NodeHash) :
    left.getWireNode nodeHash = right.getWireNode nodeHash := by
  rw [getWireNode, getWireNode, hwires]

omit [IndexSearch] in
theorem opaqueStore_compactInternal (context : ConversationContext) (packId : Nat) :
    (context.compactInternal packId).files.opaqueStore = context.files.opaqueStore := by
  unfold compactInternal
  split <;> rfl

end ConversationContext

open ConversationContext (SameNode)

/-- The reads of nodes that a write of a wire form must leave alone. -/
structure KeepsNodes (before after : FsStore) : Prop where
  hasNode : ∀ nodeHash, after.hasNode nodeHash = before.hasNode nodeHash
  getNode : ∀ nodeHash, after.getNode nodeHash = before.getNode nodeHash
  isVerified : ∀ nodeHash, after.isVerified nodeHash = before.isVerified nodeHash
  getRank : ∀ nodeHash, after.getRank nodeHash = before.getRank nodeHash
  getNodeType : ∀ nodeHash, after.getNodeType nodeHash = before.getNodeType nodeHash

namespace FsStore

variable {store before after : FsStore}

/-! ## Reads behind the index -/

variable {conversationId : ConversationId} {nodeHash : NodeHash}

section

variable (hindex : store.nodeToConv.get nodeHash = some conversationId)
include hindex

theorem getNode_of_index :
    store.getNode nodeHash = (store.view conversationId).getNode nodeHash := by
  rw [getNode, bind_view rfl, hindex, Option.bind_some]

omit [Primitives] in
theorem getRank_of_index :
    store.getRank nodeHash = (store.view conversationId).getRank nodeHash := by
  rw [getRank, bind_view rfl, hindex, Option.bind_some]

omit [Primitives] in
theorem getNodeType_of_index :
    store.getNodeType nodeHash = (store.view conversationId).getNodeType nodeHash := by
  rw [getNodeType, bind_view rfl, hindex, Option.bind_some]

omit [Primitives] in
theorem isVerified_of_index :
    store.isVerified nodeHash = (store.view conversationId).isVerified nodeHash := by
  rw [isVerified, any_view rfl, hindex, Option.any_some]

end

/-- Stores keep each other's nodes when the index, or what it leads to, is the same. -/
theorem keepsNodes_of_sameNode
    (hsame : ∀ nodeHash,
      (after.nodeToConv.get nodeHash = none ∧ before.nodeToConv.get nodeHash = none) ∨
      ∃ named named', after.nodeToConv.get nodeHash = some named ∧
        before.nodeToConv.get nodeHash = some named' ∧
        SameNode nodeHash (after.view named) (before.view named')) :
    KeepsNodes before after where
  hasNode nodeHash := by
    rw [hasNode, hasNode, AssocMap.contains_eq, AssocMap.contains_eq]
    obtain ⟨hafter, hbefore⟩ | ⟨_, _, hafter, hbefore, -⟩ := hsame nodeHash
    · rw [hafter, hbefore]
    · rw [hafter, hbefore]
      rfl
  getNode nodeHash := by
    obtain ⟨hafter, hbefore⟩ | ⟨_, _, hafter, hbefore, hnode⟩ := hsame nodeHash
    · rw [getNode, getNode, locate, locate, hafter, hbefore]
      rfl
    · rw [getNode_of_index hafter, getNode_of_index hbefore, hnode.getNode]
  isVerified nodeHash := by
    obtain ⟨hafter, hbefore⟩ | ⟨_, _, hafter, hbefore, hnode⟩ := hsame nodeHash
    · rw [isVerified, isVerified, locate, locate, hafter, hbefore]
      rfl
    · rw [isVerified_of_index hafter, isVerified_of_index hbefore, hnode.isVerified]
  getRank nodeHash := by
    obtain ⟨hafter, hbefore⟩ | ⟨_, _, hafter, hbefore, hnode⟩ := hsame nodeHash
    · rw [getRank, getRank, locate, locate, hafter, hbefore]
      rfl
    · rw [getRank_of_index hafter, getRank_of_index hbefore, hnode.getRank]
  getNodeType nodeHash := by
    obtain ⟨hafter, hbefore⟩ | ⟨_, _, hafter, hbefore, hnode⟩ := hsame nodeHash
    · rw [getNodeType, getNodeType, locate, locate, hafter, hbefore]
      rfl
    · rw [getNodeType_of_index hafter, getNodeType_of_index hbefore, hnode.getNodeType]

/-- Opening a conversation and an update that changes no node. -/
theorem sameNode_update {f : ConversationContext → ConversationContext}
    (hsame : ∀ context, SameNode nodeHash (f context) context)
    (conversationId other : ConversationId) :
    SameNode nodeHash (((store.ensureConversation conversationId).update conversationId f).view
      other) (store.view other) where
  getNode :=
    (read_update (·.getNode nodeHash) (fun context => (hsame context).getNode) _ _).trans
      (read_ensureConversation (·.getNode nodeHash) (fun _ => rfl) _ _)
  isVerified :=
    (read_update (·.isVerified nodeHash) (fun context => (hsame context).isVerified) _ _).trans
      (read_ensureConversation (·.isVerified nodeHash) (fun _ => rfl) _ _)
  getRank :=
    (read_update (·.getRank nodeHash) (fun context => (hsame context).getRank) _ _).trans
      (read_ensureConversation (·.getRank nodeHash) (fun _ => rfl) _ _)
  getNodeType :=
    (read_update (·.getNodeType nodeHash) (fun context => (hsame context).getNodeType) _ _).trans
      (read_ensureConversation (·.getNodeType nodeHash) (fun _ => rfl) _ _)

theorem putNode_index (conversationId : ConversationId) (node : MerkleNode) (verified : Bool)
    (nodeHash : NodeHash) :
    (store.putNode conversationId node verified).nodeToConv.get nodeHash =
      if nodeHash = hash node then some conversationId else store.nodeToConv.get nodeHash := by
  have hrecorded : (store.recordNode conversationId node verified).nodeToConv.get nodeHash =
      if nodeHash = hash node then some conversationId
      else store.nodeToConv.get nodeHash := by
    rw [← store.nodeToConv_ensureConversation conversationId]
    exact AssocMap.get_insert _ _ _ _
  unfold putNode
  dsimp only
  split <;> exact hrecorded

section Wire

variable [WireFormat]

omit [IndexSearch] [Primitives] in
theorem getWireNode_view (nodeHash : NodeHash) :
    store.getWireNode nodeHash =
      (store.nodeToConv.get nodeHash).bind fun conversationId =>
        (store.view conversationId).getWireNode nodeHash :=
  bind_view (f := fun context => context.getWireNode nodeHash) rfl nodeHash

section

variable (conversationId : ConversationId)

theorem putWireNode_index (nodeHash : NodeHash) (wire : WireNode) (other : NodeHash) :
    (store.putWireNode conversationId nodeHash wire).nodeToConv.get other =
      if other = nodeHash then some conversationId else store.nodeToConv.get other := by
  rw [← store.nodeToConv_ensureConversation conversationId]
  exact AssocMap.get_insert _ _ _ _

omit [WireFormat] in
theorem removeWireNode_index (nodeHash : NodeHash) :
    (store.removeWireNode conversationId nodeHash).nodeToConv =
      store.nodeToConv.erase nodeHash := by
  rw [← store.nodeToConv_ensureConversation conversationId]
  rfl

/-- Storing a wire form leaves the nodes alone exactly when the index already leads to
what the conversation has of the hash. -/
theorem putWireNode_keepsNodes_iff (nodeHash : NodeHash) (wire : WireNode) :
    KeepsNodes store (store.putWireNode conversationId nodeHash wire) ↔
      ∃ named, store.nodeToConv.get nodeHash = some named ∧
        SameNode nodeHash (store.view conversationId) (store.view named) := by
  have hindex := store.putWireNode_index conversationId nodeHash wire
  have hviews : ∀ other named, SameNode other
      ((store.putWireNode conversationId nodeHash wire).view named) (store.view named) :=
    fun other named => sameNode_update
      (f := fun context => { context with files := { context.files with
        opaqueStore := context.files.opaqueStore.putNode nodeHash
          (WireFormat.serializeWire wire) } })
      (fun _ => ⟨rfl, rfl, rfl, rfl⟩) conversationId named
  have hself := hindex nodeHash
  rw [if_pos rfl] at hself
  constructor
  · intro hkeeps
    have hhas := hkeeps.hasNode nodeHash
    rw [hasNode, hasNode, AssocMap.contains_eq, AssocMap.contains_eq, hself] at hhas
    obtain ⟨named, hnamed⟩ := Option.isSome_iff_exists.mp hhas.symm
    have hview := hviews nodeHash conversationId
    refine ⟨named, hnamed, ?_, ?_, ?_, ?_⟩
    · rw [← hview.getNode, ← getNode_of_index hself, ← getNode_of_index hnamed]
      exact hkeeps.getNode nodeHash
    · rw [← hview.isVerified, ← isVerified_of_index hself, ← isVerified_of_index hnamed]
      exact hkeeps.isVerified nodeHash
    · rw [← hview.getRank, ← getRank_of_index hself, ← getRank_of_index hnamed]
      exact hkeeps.getRank nodeHash
    · rw [← hview.getNodeType, ← getNodeType_of_index hself, ← getNodeType_of_index hnamed]
      exact hkeeps.getNodeType nodeHash
  · rintro ⟨named, hnamed, hsame⟩
    refine keepsNodes_of_sameNode fun other => ?_
    by_cases heq : other = nodeHash
    · rw [heq]
      exact .inr ⟨_, _, hself, hnamed, (hviews _ _).trans hsame⟩
    · rw [hindex, if_neg heq]
      cases hother : store.nodeToConv.get other with
      | none => exact .inl ⟨rfl, rfl⟩
      | some found => exact .inr ⟨_, _, rfl, rfl, hviews _ _⟩

omit [WireFormat] in
/-- Removing a wire form leaves the nodes alone exactly when the hash is unknown. -/
theorem removeWireNode_keepsNodes_iff (nodeHash : NodeHash) :
    KeepsNodes store (store.removeWireNode conversationId nodeHash) ↔
      store.hasNode nodeHash = false := by
  have hindex := store.removeWireNode_index conversationId nodeHash
  have hviews : ∀ other named, SameNode other
      ((store.removeWireNode conversationId nodeHash).view named) (store.view named) :=
    fun other named => sameNode_update
      (f := fun context => { context with files := { context.files with
        opaqueStore := context.files.opaqueStore.removeNode nodeHash } })
      (fun _ => ⟨rfl, rfl, rfl, rfl⟩) conversationId named
  constructor
  · intro hkeeps
    have hhas := hkeeps.hasNode nodeHash
    rw [hasNode, hindex, AssocMap.contains_eq, AssocMap.get_erase_self] at hhas
    exact hhas.symm
  · intro habsent
    rw [hasNode, AssocMap.contains_eq, Option.isSome_eq_false_iff,
      Option.isNone_iff_eq_none] at habsent
    refine keepsNodes_of_sameNode fun other => ?_
    rw [hindex]
    by_cases heq : other = nodeHash
    · rw [heq]
      exact .inl ⟨AssocMap.get_erase_self _ _, habsent⟩
    · rw [AssocMap.get_erase_of_ne _ heq]
      cases hother : store.nodeToConv.get other with
      | none => exact .inl ⟨rfl, rfl⟩
      | some found => exact .inr ⟨_, _, rfl, rfl, hviews _ _⟩

/-- Writing a node changes no file of opaque nodes. -/
theorem putNode_getWireNode_view (node : MerkleNode) (verified : Bool) (other : ConversationId)
    (nodeHash : NodeHash) :
    ((store.putNode conversationId node verified).view other).getWireNode nodeHash =
      (store.view other).getWireNode nodeHash := by
  have hrecorded : ((store.recordNode conversationId node verified).view
      other).getWireNode nodeHash = (store.view other).getWireNode nodeHash :=
    ((store.ensureConversation conversationId).read_update (·.getWireNode nodeHash)
      (f := fun context => context.recordNode node verified)
      (fun _ => ConversationContext.getWireNode_congr rfl _) conversationId other).trans
        (read_ensureConversation (·.getWireNode nodeHash)
          (fun _ => ConversationContext.getWireNode_congr rfl _) conversationId other)
  rw [putNode]
  generalize store.recordNode conversationId node verified = recorded at hrecorded ⊢
  have hcompacted : ((recorded.compactInternal conversationId).view other).getWireNode nodeHash =
      (recorded.view other).getWireNode nodeHash :=
    recorded.read_update (fun context => context.getWireNode nodeHash)
      (f := fun context => context.compactInternal recorded.now)
      (fun context => ConversationContext.getWireNode_congr
        (context.opaqueStore_compactInternal recorded.now) nodeHash) conversationId other
  split
  next => exact hcompacted.trans hrecorded
  next => exact hrecorded

/-- Writing a node leaves the wire forms alone exactly when the conversation has the wire
form that its hash led to. -/
theorem putNode_keepsWireNodes_iff (node : MerkleNode) (verified : Bool) :
    (∀ nodeHash, (store.putNode conversationId node verified).getWireNode nodeHash =
        store.getWireNode nodeHash) ↔
      store.getWireNode (hash node) = (store.view conversationId).getWireNode (hash node) := by
  have hself : (store.putNode conversationId node verified).getWireNode (hash node) =
      (store.view conversationId).getWireNode (hash node) := by
    rw [getWireNode_view, putNode_index, if_pos rfl, Option.bind_some, putNode_getWireNode_view]
  constructor
  · intro hkeeps
    rw [← hkeeps, hself]
  · intro hsame nodeHash
    by_cases heq : nodeHash = hash node
    · rw [heq, hself, hsame]
    · rw [getWireNode_view, getWireNode_view, putNode_index, if_neg heq]
      simp only [putNode_getWireNode_view]

end

/-- When wire forms and nodes leave each other alone: a wire form is stored where the
index already leads to the same node, removed where the hash is unknown, and a node is
written where its wire form was already found. So a hash with a wire form always counts
as a stored node, and the promotion of a wire form loses the node. -/
theorem wire_forms_independent_iff (store : FsStore) :
    (∀ conversationId nodeHash wire,
      KeepsNodes store (store.putWireNode conversationId nodeHash wire) ↔
        ∃ named, store.nodeToConv.get nodeHash = some named ∧
          SameNode nodeHash (store.view conversationId) (store.view named)) ∧
    (∀ conversationId nodeHash,
      KeepsNodes store (store.removeWireNode conversationId nodeHash) ↔
        store.hasNode nodeHash = false) ∧
    (∀ conversationId node verified,
      (∀ nodeHash, (store.putNode conversationId node verified).getWireNode nodeHash =
          store.getWireNode nodeHash) ↔
        store.getWireNode (hash node) = (store.view conversationId).getWireNode (hash node)) ∧
    (∀ conversationId nodeHash wire,
      (store.putWireNode conversationId nodeHash wire).hasNode nodeHash = true) ∧
    ∀ conversationId node wire,
      (((store.putWireNode conversationId (hash node) wire).putNode conversationId node
        true).removeWireNode conversationId (hash node)).hasNode (hash node) = false := by
  refine ⟨store.putWireNode_keepsNodes_iff, store.removeWireNode_keepsNodes_iff,
    store.putNode_keepsWireNodes_iff, fun conversationId nodeHash wire => ?_,
    fun conversationId node wire => ?_⟩
  · rw [hasNode, AssocMap.contains_eq, putWireNode_index, if_pos rfl]
    rfl
  · rw [hasNode, AssocMap.contains_eq, removeWireNode_index, AssocMap.get_erase_self]
    rfl

end Wire

end FsStore

end Independence

namespace WireForms

open Core.Reference Reference

/-- A wire form whose node was decrypted and stored. -/
def decrypted : FsStore :=
  FsStore.new.run [.putWireNode room (hash genesis) (wireOf 0 [1, 2, 3]),
    .putNode room genesis true]

/-- Removing the wire form takes the node out of the store's sight. -/
theorem promoted_node_lost :
    decrypted.isVerified (hash genesis) = true ∧
      ¬ KeepsNodes decrypted (decrypted.removeWireNode room (hash genesis)) := by
  have hbefore : decrypted.isVerified (hash genesis) = true := by decide +kernel
  have hhas : decrypted.hasNode (hash genesis) = true := by decide +kernel
  refine ⟨hbefore, fun hkeeps => ?_⟩
  rw [(decrypted.removeWireNode_keepsNodes_iff _ _).mp hkeeps] at hhas
  cases hhas

end WireForms

end MerkleTox.Fs
