import MerkleTox.Core.Engine

/-! # Authenticity of nodes and re-validation

How the engine decides that a node is authentic, `verify_node`, which re-checks the
authorization of a node, and the re-validation of all stored verified nodes after an
identity change. A device signature is checked by `validate`, so a node with one
that passed it is authentic.
-/

namespace MerkleTox.Core

open Library Proto

namespace Engine

variable [Primitives]
variable (engine : Engine) (store : InMemoryStore) (conversationId : ConversationId)

/-- A distribution for epoch `n` is signed with the key of epoch `n - 1`. -/
def signatureEpoch (node : MerkleNode) : Nat :=
  if node.content.isSenderKeyDistribution then node.epoch - 1 else node.epoch

/-- The ephemeral signature verifies under the stored key of the sender, over the wire
form if the node has an encrypted one, or over the plain form. -/
def ephemeralAuthentic (node : MerkleNode) (signature : Ed25519Signature) : Bool :=
  match engine.peerEphemeralSigningKeys.get (node.senderPk, signatureEpoch node) with
  | none => false
  | some signingPk =>
      let plain := Primitives.verify signingPk.bytes (Primitives.serializeForAuth node) signature
      if node.isExceptionNode then plain
      else
        ((engine.overlay store).getWireNode (hash node)).any (fun wire =>
          Primitives.verify signingPk.bytes (Primitives.wireSerializeForAuth wire) signature) ||
        plain

/-- The MAC of a genesis node stands in the first 32 bytes of its signature. -/
def genesisMacAuthentic (node : MerkleNode) (signature : Ed25519Signature) : Bool :=
  match (engine.establishedState conversationId).bind fun em => em.getKeys 0 with
  | some kConv =>
      signature.bytes.extractLsb' 256 256 =
        Primitives.calculateMac kConv (Primitives.serializeForAuth node)
  | none => false

def isAuthentic (node : MerkleNode) : Bool :=
  match node.authentication with
  | .signature _ => true
  | .ephemeralSignature signature =>
      if node.content.isGenesis then engine.genesisMacAuthentic conversationId node signature
      else engine.ephemeralAuthentic store node signature

/-- Outcome of the structural rules: an error, or whether the node is structurally
valid; a node with missing parents or a wrong rank is kept, unverified. -/
def checkStructure (node : MerkleNode) : Except ValidationError Bool × Engine :=
  let (result, known) := node.validate (engine.overlay store)
  let engine := { engine with
    pendingCache := { engine.pendingCache with adminDistances := known } }
  match result with
  | .ok () => (.ok true, engine)
  | .error (.missingParents _) => (.ok false, engine)
  | .error (.topologicalRankViolation ..) => (.ok false, engine)
  | .error error => (.error error, engine)

/-- The timestamp is at most ten minutes before the oldest parent and at most ten
minutes ahead of the clock. -/
def timely (overlay : Overlay) (node : MerkleNode) (nowMs : Int) : Bool :=
  (match ((node.parents.filterMap overlay.getNode).map MerkleNode.networkTimestamp).min? with
    | some oldest => oldest - 600000 ≤ node.networkTimestamp
    | none => true) &&
  node.networkTimestamp ≤ nowMs + 600000

/-- The causal context of a node and whether its sender is authorized there. -/
def authorization (node : MerkleNode) : CausalContext × Bool × Engine :=
  let (ctx, engine) := engine.causalContext store node
  let (authorized, manager) := engine.identityManager.isAuthorized ctx conversationId
    node.senderPk node.authorPk node.networkTimestamp node.topologicalRank
  (ctx, authorized, { engine with identityManager := manager })

/-- Authenticity for a re-check: a node that was verified before is trusted. -/
def isStillAuthentic (node : MerkleNode) : Bool :=
  match node.authentication with
  | .signature _ => true
  | .ephemeralSignature signature =>
      (engine.overlay store).isVerified (hash node) ||
        engine.ephemeralAuthentic store node signature

def verifyNode (node : MerkleNode) (nowMs : Int) : Bool × Engine :=
  match engine.checkStructure store node with
  | (.error _, engine) => (false, engine)
  | (.ok structurallyValid, engine) =>
      let (_, authorized, engine) := engine.authorization store conversationId node
      if authorized && timely (engine.overlay store) node nowMs && structurallyValid &&
          engine.isStillAuthentic store node then
        (true, { engine with
          pendingCache := engine.pendingCache.markVerified conversationId (hash node) })
      else (false, engine)

/-- Re-check a list of verified nodes; those that fail become speculative again. -/
def revalidateNodes (engine : Engine) (store : InMemoryStore) (conversationId : ConversationId)
    (nowMs : Int) : List MerkleNode → List Effect × Engine
  | [] => ([], engine)
  | node :: rest =>
      match engine.verifyNode store conversationId node nowMs with
      | (true, engine) => engine.revalidateNodes store conversationId nowMs rest
      | (false, engine) =>
          let (effects, engine) := engine.revalidateNodes store conversationId nowMs rest
          (.writeStore conversationId node false ::
            .emitEvent (.nodeInvalidated conversationId (hash node)) :: effects, engine)

def revalidateAllVerifiedNodes (nowMs : Int) : List Effect × Engine :=
  engine.revalidateNodes store conversationId nowMs
    (sortByKey MerkleNode.topologicalRank
      (store.getVerifiedNodesByType .content ++ store.getVerifiedNodesByType .admin))

/-- The kinds of nodes that change who is authorized. -/
def changesAuthorization : Content → Bool
  | .control (.authorizeDevice _) | .control (.revokeDevice ..) | .control (.leave _) => true
  | _ => false

end Engine

end MerkleTox.Core
