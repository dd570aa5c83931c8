import MerkleTox.Core.Runs

/-! # Loading a conversation from the store

`load_conversation_state` rebuilds the identity state of a conversation from the
verified admin nodes in the store, and its keys and ratchets from what was persisted.
A lifetime of an engine mixes such loads with its other calls.
-/

namespace MerkleTox.Core

open Library Proto Relation

namespace Engine

variable [Primitives]

/-- What loading replays of an admin node. -/
def replayAction (engine : Engine) (ctx : CausalContext) (conversationId : ConversationId)
    (node : MerkleNode) : Engine :=
  match node.content with
  | .control (.genesis _ creatorPk _ _ createdAt _) =>
      engine.withIdentity (engine.identityManager.addMember conversationId creatorPk 0 createdAt)
  | .control (.authorizeDevice cert) =>
      engine.withIdentity (engine.identityManager.authorizeDevice ctx conversationId
        node.authorPk cert node.networkTimestamp node.topologicalRank (hash node)).2
  | .control (.revokeDevice target _) =>
      engine.withIdentity (engine.identityManager.revokeDevice conversationId node.senderPk
        node.authorPk target node.topologicalRank node.networkTimestamp (hash node))
  | .control (.invite invite) =>
      engine.withIdentity (engine.identityManager.addMember conversationId invite.inviteePk
        invite.role node.networkTimestamp)
  | .control (.leave logicalPk) => engine.applyLeave conversationId node logicalPk
  | .control (.announcement preKeys lastResortKey) =>
      engine.applyAnnouncement node preKeys lastResortKey
  | _ => engine

def replayNode (store : InMemoryStore) (conversationId : ConversationId) (engine : Engine)
    (node : MerkleNode) : Engine :=
  let (ctx, engine) := engine.searchAncestors ⟨store, .new⟩ node
  engine.replayAction ctx conversationId node

/-- The highest sequence number of every sender. -/
def noteSequences (cache : PendingCache) (conversationId : ConversationId)
    (nodes : List MerkleNode) : PendingCache :=
  nodes.foldl
    (fun cache node =>
      let key := (conversationId, node.senderPk)
      let seq := max node.seq ((cache.lastVerifiedSequences.get key).getD 0)
      { cache with lastVerifiedSequences := cache.lastVerifiedSequences.insert key seq })
    cache

/-- The node of every sender with the highest sequence number, the first of equals. -/
def lastNodes (nodes : List MerkleNode) : AssocMap PhysicalDevicePk MerkleNode :=
  nodes.foldl
    (fun last node => (last.orInsert node.senderPk node).modify node.senderPk fun entry =>
      if entry.seq < node.seq then node else entry)
    .empty

/-- Set the ratchets to the keys that were persisted with the last nodes. -/
def restoreRatchets (store : InMemoryStore) (conversationId : ConversationId)
    (nodes : List MerkleNode) (em : Established) : Established :=
  (lastNodes nodes).entries.foldl
    (fun em (senderPk, node) =>
      match store.ratchetKeys.get (conversationId, hash node) with
      | some (key, epochId) => (em.commitNodeKey senderPk node.seq key (hash node) epochId).2
      | none => em)
    em

/-- The conversation that loading puts in place of what the engine holds. -/
def restoredConversation (store : InMemoryStore) (conversationId : ConversationId)
    (nodes : List MerkleNode) (nowMs : Int) : Conversation :=
  match store.getConversationKeys conversationId with
  | [] => .pending .new
  | (_, first) :: rest =>
      let (count, rotationTime) := (store.epochMetadata.get conversationId).getD (0, nowMs)
      let em := rest.foldl (fun em (epoch, kConv) => em.addEpoch epoch kConv)
        (Established.new first rotationTime)
      .established (restoreRatchets store conversationId nodes { em with messageCount := count })

/-- `load_conversation_state`. -/
def loadConversationState (engine : Engine) (store : InMemoryStore)
    (conversationId : ConversationId) (nowMs : Int) : Engine :=
  let adminNodes := store.getVerifiedNodesByType .admin
  let nodes := adminNodes ++ store.getVerifiedNodesByType .content
  let engine := adminNodes.foldl (replayNode store conversationId) engine
  let engine := { engine with
    pendingCache := noteSequences engine.pendingCache conversationId nodes }
  engine.setConversation conversationId (restoredConversation store conversationId nodes nowMs)

end Engine

/-! ## Lifetimes -/

/-- A call of the engine's owner, or the load of a conversation from the store. -/
inductive LifetimeCommand
  | call (command : Command)
  | load (conversationId : ConversationId) (nowMs : Int)

namespace World

variable [Primitives] [WireCodec]

def live (world : World) : LifetimeCommand → World
  | .call command => world.step command
  | .load conversationId nowMs =>
      world.withEngine (world.engine.loadConversationState world.store conversationId nowMs)

/-- The world after a lifetime of an engine. -/
def lifetime (world : World) (commands : List LifetimeCommand) : World :=
  runFrom live world commands

end World

/-! ## Searches -/

namespace Engine

variable [Primitives] (engine : Engine) (store : InMemoryStore) (conversationId : ConversationId)

theorem replayAction_searched (ctx : CausalContext) (node : MerkleNode) :
    ((engine.replayAction ctx conversationId node).adminAncestorsCache,
        (engine.replayAction ctx conversationId node).searches) =
      (engine.adminAncestorsCache, engine.searches) := by
  unfold replayAction
  split <;> rfl

/-- Loading searches for the ancestors of every admin node. -/
theorem loadConversationState_searched (nowMs : Int) :
    SearchRun (engine.adminAncestorsCache, engine.searches)
      ((engine.loadConversationState store conversationId nowMs).adminAncestorsCache,
        (engine.loadConversationState store conversationId nowMs).searches) := by
  have hreplay : ∀ (nodes : List MerkleNode) (engine : Engine),
      SearchRun (engine.adminAncestorsCache, engine.searches)
        ((nodes.foldl (replayNode store conversationId) engine).adminAncestorsCache,
          (nodes.foldl (replayNode store conversationId) engine).searches) := by
    intro nodes
    induction nodes with
    | nil => exact fun _ => .refl
    | cons node rest ih =>
        intro engine
        refine .head ?_ (ih (replayNode store conversationId engine node))
        unfold replayNode
        dsimp only
        rw [replayAction_searched]
        exact .search engine ⟨store, .new⟩ node
  exact hreplay _ engine

end Engine

/-- Over a lifetime an engine does nothing but searches to the cache of ancestors. -/
theorem World.lifetime_searched [Primitives] [WireCodec] (world : World)
    (commands : List LifetimeCommand) :
    SearchRun (world.engine.adminAncestorsCache, world.engine.searches)
      ((world.lifetime commands).engine.adminAncestorsCache,
        (world.lifetime commands).engine.searches) := by
  induction commands generalizing world with
  | nil => exact .refl
  | cons command rest ih =>
      refine ReflTransGen.trans ?_ (ih (world.live command))
      cases command with
      | call command => exact (world.step_steps command).evolves.2.searched
      | load conversationId nowMs =>
          exact world.engine.loadConversationState_searched world.store conversationId nowMs

end MerkleTox.Core
