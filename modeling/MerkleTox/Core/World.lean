import MerkleTox.Core.Processing
import MerkleTox.Library.Run

/-! # Runs of the engine

A world is an engine with the store it is called with. A step calls the engine and,
if the call succeeds, applies its effects to the store as `MerkleToxNode` does. The
loops that re-verify waiting nodes run until a pass makes no progress; the model
bounds the number of passes by the `fuel` of a call, over which the results quantify.

`evaluations` and `emitted` are histories that the code does not have: every
evaluation of a node with the engine before and after it, and every effect that a
successful call returned.
-/

namespace MerkleTox.Core

open Library Proto

/-- The decryption of wire nodes: `identify_sender_and_unpack` and, failing that,
`try_unpack_history_export`. -/
class WireCodec where
  unpack : Established → WireNode → List (PhysicalDevicePk × LogicalIdentityPk) →
    Option MerkleNode

structure Evaluation where
  conversationId : ConversationId
  node : MerkleNode
  nowMs : Int
  store : InMemoryStore
  before : Engine
  result : Except MerkleToxError Engine.Verdict
  after : Engine

structure World where
  engine : Engine
  store : InMemoryStore
  evaluations : List Evaluation
  emitted : List Effect

namespace World

def new (engine : Engine) : World := ⟨engine, .new, [], []⟩

def withEngine (world : World) (engine : Engine) : World := { world with engine := engine }

section Handling

variable [Primitives]

def overlay (world : World) : Overlay := world.engine.overlay world.store

/-- Evaluate a node and remember the evaluation. -/
def evaluate (world : World) (conversationId : ConversationId) (node : MerkleNode)
    (nowMs : Int) : Except MerkleToxError Engine.Verdict × World :=
  let (result, engine) := world.engine.evaluateNode world.store conversationId node nowMs
  (result, { world with
    engine := engine
    evaluations := world.evaluations ++
      [⟨conversationId, node, nowMs, world.store, world.engine, result, engine⟩] })

/-- Handle a node without re-verifying others: the form `handle_node_internal_ext`
takes when re-verification calls it. -/
def processNode (world : World) (conversationId : ConversationId) (node : MerkleNode)
    (nowMs : Int) : Except MerkleToxError (List Effect) × World :=
  if world.overlay.isVerified (hash node) then (.ok [], world)
  else
    match world.evaluate conversationId node nowMs with
    | (.error error, world) => (.error error, world)
    | (.ok verdict, world) =>
        (.ok (verdict.effects ++
          [.emitEvent (world.engine.nodeEvent conversationId node verdict.verified)]), world)

/-- The nodes that effects write as verified. -/
def verifiedWrites (effects : List Effect) : List (ConversationId × MerkleNode) :=
  effects.filterMap fun
    | .writeStore conversationId node true => some (conversationId, node)
    | _ => none

/-- Let later nodes of the pass see the verified writes. -/
def noteVerified (world : World) (effects : List Effect) : World :=
  world.withEngine { world.engine with
    pendingCache := (verifiedWrites effects).foldl
      (fun cache (conversationId, node) => cache.noteReverified conversationId node)
      world.engine.pendingCache }

/-- One pass over speculative nodes: those that are authentic or vouched for are
processed again, and the effects of the ones that led to a verified write are kept. -/
def reverifyPass (world : World) (conversationId : ConversationId) (nowMs : Int) :
    List MerkleNode → Bool × List Effect × World
  | [] => (false, [], world)
  | node :: rest =>
      if !world.engine.isAuthentic world.store conversationId node &&
          world.engine.vouchCount conversationId (hash node) < vouchThreshold then
        world.reverifyPass conversationId nowMs rest
      else
        match world.processNode conversationId node nowMs with
        | (.error _, world) => world.reverifyPass conversationId nowMs rest
        | (.ok effects, world) =>
            if (verifiedWrites effects).isEmpty then
              world.reverifyPass conversationId nowMs rest
            else
              let (_, later, world) :=
                (world.noteVerified effects).reverifyPass conversationId nowMs rest
              (true, effects ++ later, world)

def reverifySpeculative (world : World) (conversationId : ConversationId) (nowMs : Int) :
    Nat → List Effect × World
  | 0 => ([], world)
  | fuel + 1 =>
      match world.reverifyPass conversationId nowMs world.overlay.getSpeculativeNodes with
      | (false, effects, world) => (effects, world)
      | (true, effects, world) =>
          let (later, world) := world.reverifySpeculative conversationId nowMs fuel
          (effects ++ later, world)

/-- The wire form of an opaque node that unpacks leaves the store, but stays in the
cache while the node is processed, for the check of its signature. -/
def holdWire (world : World) (conversationId : ConversationId) (nodeHash : NodeHash)
    (wire : WireNode) : World :=
  let cache := world.engine.pendingCache
  { world with
      store := world.store.removeWireNode nodeHash
      engine := { world.engine with
        pendingCache := { cache with
          wireNodes := cache.wireNodes.insert nodeHash (conversationId, wire) } } }

def dropWire (world : World) (nodeHash : NodeHash) : World :=
  let cache := world.engine.pendingCache
  world.withEngine { world.engine with
    pendingCache := { cache with wireNodes := cache.wireNodes.erase nodeHash } }

variable [WireCodec]

/-- One pass over opaque nodes: those that unpack with the keys at hand are processed. -/
def opaquePass (world : World) (conversationId : ConversationId) (nowMs : Int)
    (em : Established) : List NodeHash → Bool × List Effect × World
  | [] => (false, [], world)
  | nodeHash :: rest =>
      let senders := world.engine.identityManager.listAllAuthorizedSenderPairs conversationId
      match world.overlay.getWireNode nodeHash with
      | none => world.opaquePass conversationId nowMs em rest
      | some wire =>
          match WireCodec.unpack em wire senders with
          | none => world.opaquePass conversationId nowMs em rest
          | some node =>
              match (world.holdWire conversationId nodeHash wire).processNode conversationId node
                  nowMs with
              | (.error _, world) =>
                  let (progress, later, world) :=
                    (world.dropWire nodeHash).opaquePass conversationId nowMs em rest
                  (progress, .deleteWireNode conversationId nodeHash :: later, world)
              | (.ok effects, world) =>
                  let (_, later, world) :=
                    (world.dropWire nodeHash).opaquePass conversationId nowMs em rest
                  (true, .deleteWireNode conversationId nodeHash :: (effects ++ later), world)

def reverifyOpaque (world : World) (conversationId : ConversationId) (nowMs : Int) :
    Nat → List Effect × World
  | 0 => ([], world)
  | fuel + 1 =>
      match world.engine.establishedState conversationId with
      | none => ([], world)
      | some em =>
          match world.opaquePass conversationId nowMs em
              (world.overlay.getOpaqueNodeHashes conversationId) with
          | (false, effects, world) => (effects, world)
          | (true, effects, world) =>
              let (later, world) := world.reverifyOpaque conversationId nowMs fuel
              (effects ++ later, world)

/-- `handle_node`. A node that is stored already, verified or not, is skipped. -/
def handleNode (world : World) (conversationId : ConversationId) (node : MerkleNode)
    (nowMs : Int) (fuel : Nat) : Except MerkleToxError (List Effect) × World :=
  let world := world.withEngine world.engine.clearPending
  if world.overlay.isVerified (hash node) || world.overlay.hasNode (hash node) then
    (.ok [], world)
  else
    match world.evaluate conversationId node nowMs with
    | (.error error, world) => (.error error, world)
    | (.ok verdict, world) =>
        let (reverified, world) :=
          if verdict.authentic || verdict.verified then
            let (opaqueEffects, world) := world.reverifyOpaque conversationId nowMs fuel
            let (speculativeEffects, world) :=
              world.reverifySpeculative conversationId nowMs fuel
            (opaqueEffects ++ speculativeEffects, world)
          else ([], world)
        (.ok (verdict.effects ++ reverified ++
          [.emitEvent (world.engine.nodeEvent conversationId node verdict.verified)]), world)

end Handling

end World

/-! ## Effects and runs -/

namespace InMemoryStore

variable [Primitives]

/-- `MerkleToxNode::process_effect`, as far as it concerns the store. -/
def applyEffect (store : InMemoryStore) : Effect → InMemoryStore
  | .writeStore _ node verified => store.putNode node verified
  | .writeWireNode conversationId nodeHash wire => store.putWireNode conversationId nodeHash wire
  | .deleteWireNode _ nodeHash => store.removeWireNode nodeHash
  | .writeRatchetKey conversationId nodeHash key epochId =>
      { store with
          ratchetKeys := store.ratchetKeys.insert (conversationId, nodeHash) (key, epochId) }
  | .deleteRatchetKey conversationId nodeHash =>
      { store with ratchetKeys := store.ratchetKeys.erase (conversationId, nodeHash) }
  | .updateHeads conversationId heads true =>
      { store with adminHeads := store.adminHeads.insert conversationId heads }
  | .updateHeads conversationId heads false =>
      { store with heads := store.heads.insert conversationId heads }
  | .writeConversationKey conversationId epoch key =>
      { store with keys := store.keys.insert (conversationId, epoch) key }
  | .writeEpochMetadata conversationId count time =>
      { store with epochMetadata := store.epochMetadata.insert conversationId (count, time) }
  | .sendPacket .. | .emitEvent _ | .historySnapshotNeeded _ => store

def applyEffects (store : InMemoryStore) (effects : List Effect) : InMemoryStore :=
  effects.foldl applyEffect store

end InMemoryStore

/-- The calls of the engine's owner. A wire node that cannot be unpacked yet is put
into the store as it arrives. -/
inductive Command
  | handleNode (conversationId : ConversationId) (node : MerkleNode) (nowMs : Int) (fuel : Nat)
  | authorNode (conversationId : ConversationId) (content : Content) (metadata : Bytes)
      (nowMs : Int)
  | rotateConversationKey (conversationId : ConversationId) (nowMs : Int)
  | senderRekey (conversationId : ConversationId) (nowMs : Int)
  | storeWire (conversationId : ConversationId) (nodeHash : NodeHash) (wire : WireNode)

namespace World

variable [Primitives]

/-- `process_effects`: apply the effects of a successful call and drop the cache. -/
def finish (world : World) : Except MerkleToxError (List Effect) → World
  | .error _ => world
  | .ok effects =>
      { world with
          store := world.store.applyEffects effects
          engine := world.engine.clearPending
          emitted := world.emitted ++ effects }

/-- A call that touches the engine only. -/
def call (world : World) (outcome : Outcome) : World :=
  (world.withEngine outcome.2).finish outcome.1

variable [WireCodec]

def step (world : World) : Command → World
  | .handleNode conversationId node nowMs fuel =>
      let (result, world) := world.handleNode conversationId node nowMs fuel
      world.finish result
  | .authorNode conversationId content metadata nowMs =>
      world.call (world.engine.authorNode world.store conversationId content metadata nowMs)
  | .rotateConversationKey conversationId nowMs =>
      world.call (Engine.rotateConversationKey world.store conversationId nowMs world.engine
        false)
  | .senderRekey conversationId nowMs =>
      world.call (world.engine.senderRekey world.store conversationId nowMs)
  | .storeWire conversationId nodeHash wire =>
      world.finish (.ok [.writeWireNode conversationId nodeHash wire])

/-- The world after a list of commands. -/
def run (world : World) (commands : List Command) : World := runFrom step world commands

end World

end MerkleTox.Core
