import MerkleTox.Core.Arithmetic
import MerkleTox.Reconcile.Iblt

/-! # Fetching in a sync session

An active session with a peer queues the nodes it misses, those of the admin track first, then
those close to the heads and then the others, and asks for them in batches. What is asked for
is in flight until a node or a wire node with the hash comes in.
-/

namespace MerkleTox.Reconcile

open MerkleTox.Core Library

structure SyncHeads where
  conversationId : ConversationId
  heads : List NodeHash
  anchorHash : Option NodeHash
  deriving DecidableEq, Repr

structure SyncSketch where
  conversationId : ConversationId
  cells : List IbltCell
  range : SyncRange
  deriving DecidableEq, Repr

structure FetchBatchReq where
  conversationId : ConversationId
  hashes : List NodeHash
  deriving DecidableEq, Repr

inductive DecodingResult
  | success (missingLocally missingRemotely : List NodeHash)
  | failed
  deriving DecidableEq, Repr

/-- A session before any node has arrived; its limits are set by the caller. -/
def newSession (localHeads : List NodeHash) (shallow : Bool) (minRank : Nat) (minTimestamp : Int)
    (maxBackfillNodes : Nat) : SessionCommon where
  shallow := shallow
  minRank := minRank
  minTimestamp := minTimestamp
  localHeads := localHeads
  remoteHeads := []
  missingNodesHot := []
  missingNodesCold := []
  inFlightFetches := []
  missingBlobs := []
  headsDirty := true
  maxBackfillNodes := maxBackfillNodes
  backfillCount := 0

/-- Queue a hash that is neither stored nor queued nor in flight among the hot ones. -/
def missHot (hasNode : NodeHash → Bool) (session : SessionCommon) (nodeHash : NodeHash) :
    SessionCommon :=
  if !hasNode nodeHash && session.isNew nodeHash then
    { session with missingNodesHot := session.missingNodesHot ++ [nodeHash] }
  else session

/-- `SyncSession<Active>`. -/
structure ActiveSession extends SessionCommon where
  conversationId : ConversationId
  missingAdminNodes : List NodeHash
  remoteAnchorHash : Option NodeHash
  ibltTiers : AssocMap SyncRange Tier
  exhaustedIbltRanges : List SyncRange

namespace ActiveSession

def activate (conversationId : ConversationId) (common : SessionCommon) : ActiveSession where
  toSessionCommon := common
  conversationId := conversationId
  missingAdminNodes := []
  remoteAnchorHash := none
  ibltTiers := .empty
  exhaustedIbltRanges := []

def getIbltTier (session : ActiveSession) (range : SyncRange) : Option Tier :=
  if session.exhaustedIbltRanges.contains range then none
  else some ((session.ibltTiers.get range).getD .small)

/-- The next larger sketch for a range, until the largest has failed. -/
def promoteIbltTier (session : ActiveSession) (range : SyncRange) : ActiveSession :=
  match session.getIbltTier range with
  | none => session
  | some .tiny => { session with ibltTiers := session.ibltTiers.insert range .small }
  | some .small => { session with ibltTiers := session.ibltTiers.insert range .medium }
  | some .medium => { session with ibltTiers := session.ibltTiers.insert range .large }
  | some .large => { session with
      ibltTiers := session.ibltTiers.erase range
      exhaustedIbltRanges := insertOnce session.exhaustedIbltRanges range }

def onWireNodeReceived (session : ActiveSession) (nodeHash : NodeHash) (wire : WireNode)
    (store : InMemoryStore) : ActiveSession :=
  { session with
      toSessionCommon := wire.parents.foldl (missHot store.hasNode)
        { session.toSessionCommon with
            inFlightFetches := session.inFlightFetches.erase nodeHash } }

/-- `on_node_received`; `none` is an overflow. -/
def onNodeReceived [Primitives] (session : ActiveSession) (node : MerkleNode)
    (store : InMemoryStore) (hasBlob : Option (NodeHash → Bool)) : Option ActiveSession :=
  match PeerSession.onNodeReceived node store hasBlob (.active session.toSessionCommon) with
  | some (.active common) => some { session with toSessionCommon := common }
  | _ => none

def handleSyncHeads (session : ActiveSession) (heads : SyncHeads) (overlay : Overlay) :
    ActiveSession :=
  if heads.conversationId ≠ session.conversationId then session
  else
    { session with
        remoteAnchorHash := heads.anchorHash.or session.remoteAnchorHash
        toSessionCommon := heads.heads.foldl (fun session head =>
          missHot overlay.hasNode
            { session with remoteHeads := insertOnce session.remoteHeads head } head)
          session.toSessionCommon }

/-- Decode what a sketch has more than the local nodes of its range, and less. -/
def handleSyncSketchKeyed [Primitives] [IbltHash] (session : ActiveSession) (sketch : SyncSketch)
    (overlay : Overlay) (kIblt : Option Bytes32) :
    Except ReconciliationError DecodingResult × ActiveSession :=
  if sketch.conversationId ≠ session.conversationId then (.ok .failed, session)
  else
    let localIblt := IbltSketch.encode sketch.cells.length kIblt
      (overlay.getNodeHashesInRange sketch.range)
    match IbltSketch.subtract ⟨sketch.cells, kIblt⟩ localIblt with
    | .error error => (.error error, session)
    | .ok difference =>
        match difference.decode with
        | .error _ => (.ok .failed, session.promoteIbltTier sketch.range)
        | .ok (missingLocally, missingRemotely, _) =>
            (.ok (.success missingLocally missingRemotely),
              { session with
                  toSessionCommon :=
                    missingLocally.foldl (missHot overlay.hasNode) session.toSessionCommon })

/-- The handler of `AdminGossip`: a hash to be fetched before the others. -/
def onAdminGossip (session : ActiveSession) (nodeHash : NodeHash) (overlay : Overlay) :
    ActiveSession :=
  if !overlay.hasNode nodeHash && !session.inFlightFetches.contains nodeHash &&
      !session.missingAdminNodes.contains nodeHash then
    { session with
        missingAdminNodes := session.missingAdminNodes ++ [nodeHash]
        headsDirty := true }
  else session

/-- Move hashes from a queue to the batch while it has room; those in flight are dropped. -/
def drain (batchSize : Nat) : List NodeHash → List NodeHash → List NodeHash →
    List NodeHash × List NodeHash × List NodeHash
  | [], inFlight, hashes => ([], inFlight, hashes)
  | nodeHash :: rest, inFlight, hashes =>
      if hashes.length < batchSize then
        if inFlight.contains nodeHash then drain batchSize rest inFlight hashes
        else drain batchSize rest (inFlight ++ [nodeHash]) (hashes ++ [nodeHash])
      else (nodeHash :: rest, inFlight, hashes)

def nextFetchBatch (session : ActiveSession) (batchSize : Nat) :
    Option FetchBatchReq × ActiveSession :=
  let (admin, inFlight, hashes) :=
    drain batchSize session.missingAdminNodes session.inFlightFetches []
  let (hot, inFlight, hashes) := drain batchSize session.missingNodesHot inFlight hashes
  let (cold, inFlight, hashes) := drain batchSize session.missingNodesCold inFlight hashes
  (if hashes.isEmpty then none else some ⟨session.conversationId, hashes⟩,
    { session with
        missingAdminNodes := admin
        missingNodesHot := hot
        missingNodesCold := cold
        inFlightFetches := inFlight })

end ActiveSession

/-! ## Runs -/

/-- What an active session sees, with the store at that time. -/
inductive SessionEvent
  | heads (heads : SyncHeads) (overlay : Overlay)
  | sketch (sketch : SyncSketch) (overlay : Overlay) (kIblt : Option Bytes32)
  | reconFail (range : SyncRange)
  | gossip (nodeHash : NodeHash) (overlay : Overlay)
  | node (node : MerkleNode) (store : InMemoryStore) (hasBlob : Option (NodeHash → Bool))
  | wireNode (nodeHash : NodeHash) (wire : WireNode) (store : InMemoryStore)
  | batch (batchSize : Nat)

variable [Primitives]

/-- A node or a wire node with the hash comes in. -/
def SessionEvent.delivers : SessionEvent → NodeHash → Bool
  | .node received _ _, nodeHash => Core.hash received = nodeHash
  | .wireNode received _ _, nodeHash => received = nodeHash
  | _, _ => false

/-- The session that a handshake leaves, which has seen some nodes. -/
def openSession (conversationId : ConversationId) (fresh : SessionCommon)
    (early : List (MerkleNode × InMemoryStore)) : ActiveSession :=
  .activate conversationId (early.foldl (fun session entry =>
    entry.1.parents.foldl (SessionCommon.missParentEarly entry.1 entry.2)
      (session.moveHeads entry.1 entry.2)) fresh)

namespace ActiveSession

variable [IbltHash]

def step (session : ActiveSession) : SessionEvent → Option ActiveSession
  | .heads heads overlay => some (session.handleSyncHeads heads overlay)
  | .sketch sketch overlay kIblt => some (session.handleSyncSketchKeyed sketch overlay kIblt).2
  | .reconFail range => some (session.promoteIbltTier range)
  | .gossip nodeHash overlay => some (session.onAdminGossip nodeHash overlay)
  | .node node store hasBlob => session.onNodeReceived node store hasBlob
  | .wireNode nodeHash wire store => some (session.onWireNodeReceived nodeHash wire store)
  | .batch batchSize => some (session.nextFetchBatch batchSize).2

def run (session : ActiveSession) (events : List SessionEvent) : Option ActiveSession :=
  events.foldlM step session

end ActiveSession

end MerkleTox.Reconcile
