import MerkleTox.Core.OverlayTracking
import MerkleTox.Core.Passages

/-! # Arithmetic on values that peers choose

Ranks and timestamps come from the nodes of peers, and the engine and its sync sessions add
to them in machine integers: one to the rank of a parent, the hot window to the rank of a
missing parent, ten minutes to timestamps. A sum that leaves its type is `none` here, an
overflow in the code.
-/

namespace MerkleTox.Core

open Library Proto

/-- A sum in `u64`, if it fits. -/
def addU64 (left right : Nat) : Option Nat :=
  if left + right ≤ u64Max then some (left + right) else none

def i64Min : Int := -2 ^ 63
def i64Max : Int := 2 ^ 63 - 1

/-- A sum in `i64`, if it fits. -/
def addI64 (left right : Int) : Option Int :=
  if i64Min ≤ left + right ∧ left + right ≤ i64Max then some (left + right) else none

theorem addU64_isNone {left right : Nat} :
    (addU64 left right).isNone = true ↔ u64Max < left + right := by
  unfold addU64
  split
  next hfits => simpa using hfits
  next hleaves => simpa using hleaves

theorem addI64_isNone {left right : Int} :
    (addI64 left right).isNone = true ↔ left + right < i64Min ∨ i64Max < left + right := by
  unfold addI64
  split <;> simp <;> omega

/-! ## Validation and timestamps -/

/-- The rank that `validate` expects of a node. -/
def MerkleNode.expectedRank (node : MerkleNode) (overlay : Overlay) : Option Nat :=
  if node.parents.isEmpty then some 0
  else addU64 ((node.parents.filterMap overlay.getRank).foldl max 0) 1

/-- The oldest timestamp of the known parents, from `i64::MAX` on. -/
def MerkleNode.minParentTs (node : MerkleNode) (overlay : Overlay) : Int :=
  ((node.parents.filterMap overlay.getNode).map MerkleNode.networkTimestamp).foldl min i64Max

/-- The windows around the parents and around the clock leave their type. -/
def MerkleNode.windowsOverflow (node : MerkleNode) (overlay : Overlay) (nowMs : Int) : Bool :=
  (node.minParentTs overlay ≠ i64Max && (addI64 (node.minParentTs overlay) (-600000)).isNone) ||
    (addI64 nowMs 600000).isNone

section Checks

variable [Primitives]

/-- `validate` comes to the rank rule and the rank it expects leaves its type. -/
def MerkleNode.rankOverflows (node : MerkleNode) (overlay : Overlay) : Bool :=
  node.validateForm.isOk && node.validateSignature.isOk &&
    (node.parents.all fun parent => (overlay.getRank parent).isSome) &&
    (node.expectedRank overlay).isNone

variable (engine : Engine) (store : InMemoryStore) (conversationId : ConversationId)

namespace Engine

/-- The structure and the timestamps of a node are checked, in `handle_node_internal_ext`
and in `verify_node` alike. -/
def checkOverflows (node : MerkleNode) (nowMs : Int) : Bool :=
  node.rankOverflows (engine.overlay store) ||
    ((engine.checkStructure store node).1.isOk &&
      node.windowsOverflow (engine.overlay store) nowMs)

/-- The checks of `revalidate_all_verified_nodes`. -/
def revalidationOverflows (engine : Engine) (store : InMemoryStore)
    (conversationId : ConversationId) (nowMs : Int) : List MerkleNode → Bool
  | [] => false
  | node :: rest =>
      engine.checkOverflows store node nowMs ||
        (engine.verifyNode store conversationId node nowMs).2.revalidationOverflows store
          conversationId nowMs rest

/-- The checks that `settle` makes. -/
def settleOverflows (node : MerkleNode) (verified authentic : Bool) (nowMs : Int) : Bool :=
  if verified || (authentic && node.isBootstrap) then
    match engine.applySideEffects (rotateConversationKey store conversationId nowMs) store
        conversationId node nowMs with
    | (.error _, _) => false
    | (.ok _, engine) =>
        verified && changesAuthorization node.content &&
          engine.revalidationOverflows store conversationId nowMs
            (sortByKey MerkleNode.topologicalRank
              (store.getVerifiedNodesByType .content ++ store.getVerifiedNodesByType .admin))
  else false

/-- The checks that `conclude` makes. -/
def concludeOverflows (node : MerkleNode) (assessment : Assessment) (nowMs : Int) : Bool :=
  let keys := engine.usedKeys conversationId node assessment
  let authentic := keys.engine.isAuthentic store conversationId node
  let (verified, engine) := keys.engine.judge conversationId node assessment authentic
  match engine.storeNode store conversationId node verified with
  | (.error _, _) => false
  | (.ok (), engine) =>
      (engine.recordNode conversationId node keys.opkIds verified authentic nowMs).settleOverflows
        store conversationId node verified authentic nowMs

/-- The checks that the evaluation of a node makes, the node's own and those of the verified
nodes that are checked again. -/
def evaluationOverflows (node : MerkleNode) (nowMs : Int) : Bool :=
  engine.checkOverflows store node nowMs ||
    match engine.vet store conversationId node nowMs with
    | (.error _, _) => false
    | (.ok assessment, engine) =>
        engine.concludeOverflows store conversationId node assessment nowMs

end Engine

def Evaluation.overflows (evaluation : Evaluation) : Bool :=
  evaluation.before.evaluationOverflows evaluation.store evaluation.conversationId evaluation.node
    evaluation.nowMs

end Checks

/-! ## Sync sessions -/

/-- `HOT_WINDOW_RANKS`. -/
def hotWindowRanks : Nat := 1000

/-- What the arrival of a node reads and changes in a `SessionCommon`. -/
structure SessionCommon where
  shallow : Bool
  minRank : Nat
  minTimestamp : Int
  localHeads : List NodeHash
  remoteHeads : List NodeHash
  missingNodesHot : List NodeHash
  missingNodesCold : List NodeHash
  inFlightFetches : List NodeHash
  missingBlobs : List NodeHash
  headsDirty : Bool
  maxBackfillNodes : Nat
  backfillCount : Nat

inductive PeerSession
  | handshake (common : SessionCommon)
  | active (common : SessionCommon)

namespace SessionCommon

variable (session : SessionCommon)

/-- A fetch of the hash is neither queued nor under way. -/
def isNew (nodeHash : NodeHash) : Bool :=
  !session.missingNodesHot.contains nodeHash && !session.missingNodesCold.contains nodeHash &&
    !session.inFlightFetches.contains nodeHash

def maxHeadRank (store : InMemoryStore) : Nat :=
  ((session.localHeads ++ session.remoteHeads).filterMap fun head =>
    (store.getNode head).map MerkleNode.topologicalRank).foldl max 0

/-- `enqueue_missing`: hot within the window below the highest head, else cold. -/
def enqueueMissing (nodeHash : NodeHash) (hintRank : Option Nat) (store : InMemoryStore) :
    Option SessionCommon := do
  if !session.isNew nodeHash then return session
  let isHot ← match hintRank with
    | none => pure true
    | some rank => do
        let reached ← addU64 rank hotWindowRanks
        pure (session.maxHeadRank store ≤ reached)
  if isHot then
    return { session with missingNodesHot := session.missingNodesHot ++ [nodeHash] }
  else return { session with missingNodesCold := session.missingNodesCold ++ [nodeHash] }

/-- The parents go from the local heads and the node comes, unless it has children. -/
def moveHeads [Primitives] (session : SessionCommon) (node : MerkleNode)
    (store : InMemoryStore) : SessionCommon :=
  let heads := session.localHeads.filter fun head => !node.parents.contains head
  { session with
      inFlightFetches := session.inFlightFetches.erase (hash node)
      localHeads := if store.hasChildren (hash node) then heads else insertOnce heads (hash node)
      headsDirty := true }

/-- Queue a parent that an active session misses. -/
def missParent (node : MerkleNode) (store : InMemoryStore) (session : SessionCommon)
    (parent : NodeHash) : Option SessionCommon :=
  if store.hasNode parent || !session.isNew parent then some session
  else if node.nodeType = .admin then
    some { session with missingNodesHot := parent :: session.missingNodesHot }
  else session.enqueueMissing parent (some (node.topologicalRank - 1)) store

/-- Queue a parent that a session in its handshake misses. -/
def missParentEarly (node : MerkleNode) (store : InMemoryStore) (session : SessionCommon)
    (parent : NodeHash) : SessionCommon :=
  if store.hasNode parent || !session.isNew parent then session
  else if node.nodeType = .admin then
    { session with missingNodesHot := parent :: session.missingNodesHot }
  else { session with missingNodesHot := session.missingNodesHot ++ [parent] }

/-- Queue the blob of a node that the blob store lacks. -/
def missBlob (node : MerkleNode) (hasBlob : Option (NodeHash → Bool)) : SessionCommon :=
  match node.content, hasBlob with
  | .blob blobHash .., some hasBlob =>
      if hasBlob blobHash then session
      else { session with missingBlobs := insertOnce session.missingBlobs blobHash }
  | _, _ => session

/-- A shallow session stops at snapshots and at its limits. -/
def stopsAt (node : MerkleNode) : Bool :=
  session.shallow &&
    ((match node.content with
      | .control (.snapshot _) | .control (.anchorSnapshot ..) => true
      | _ => false) ||
      node.topologicalRank ≤ session.minRank || node.networkTimestamp ≤ session.minTimestamp)

/-- Count a content node of a shallow backfill. -/
def countBackfill (node : MerkleNode) : SessionCommon :=
  if session.shallow && 0 < session.maxBackfillNodes && node.nodeType ≠ .admin then
    { session with backfillCount := session.backfillCount + 1 }
  else session

def backfillFull : Bool :=
  session.shallow && 0 < session.maxBackfillNodes &&
    session.maxBackfillNodes ≤ session.backfillCount

end SessionCommon

/-- `on_node_received`. -/
def PeerSession.onNodeReceived [Primitives] (node : MerkleNode) (store : InMemoryStore)
    (hasBlob : Option (NodeHash → Bool)) : PeerSession → Option PeerSession
  | .handshake session =>
      let session := session.moveHeads node store
      some (.handshake (node.parents.foldl (SessionCommon.missParentEarly node store) session))
  | .active session =>
      let session := (session.moveHeads node store).missBlob node hasBlob
      if session.stopsAt node then some (.active session)
      else
        let session := session.countBackfill node
        if session.backfillFull then some (.active session)
        else (node.parents.foldlM (SessionCommon.missParent node store) session).map .active

/-! ## Bounds on the nodes at hand -/

/-- The lowest timestamp from which ten minutes can be taken. -/
def lowestTime : Int := i64Min + 600000

/-- The highest time to which ten minutes can be added. -/
def highestTime : Int := i64Max - 600000

/-- A node with a rank up to a limit and a timestamp that is not close to `i64::MIN`. -/
structure MerkleNode.Within (node : MerkleNode) (limit : Nat) : Prop where
  rank : node.topologicalRank ≤ limit
  timestamp : lowestTime ≤ node.networkTimestamp

theorem MerkleNode.Within.mono {node : MerkleNode} {limit higher : Nat}
    (hwithin : node.Within limit) (hle : limit ≤ higher) : node.Within higher :=
  ⟨hwithin.rank.trans hle, hwithin.timestamp⟩

/-- All nodes that can be looked up are within a limit. -/
def Overlay.Within (overlay : Overlay) (limit : Nat) : Prop :=
  ∀ nodeHash node, overlay.getNode nodeHash = some node → node.Within limit

theorem foldl_max_le {ranks : List Nat} {start limit : Nat} (hstart : start ≤ limit)
    (hranks : ∀ rank ∈ ranks, rank ≤ limit) : ranks.foldl max start ≤ limit := by
  induction ranks generalizing start with
  | nil => exact hstart
  | cons rank rest ih =>
      refine ih (max_le hstart (hranks rank List.mem_cons_self)) fun other hmem => ?_
      exact hranks other (List.mem_cons_of_mem _ hmem)

theorem le_foldl_min {times : List Int} {start low : Int} (hstart : low ≤ start)
    (htimes : ∀ time ∈ times, low ≤ time) : low ≤ times.foldl min start := by
  induction times generalizing start with
  | nil => exact hstart
  | cons time rest ih =>
      refine ih (le_min hstart (htimes time List.mem_cons_self)) fun other hmem => ?_
      exact htimes other (List.mem_cons_of_mem _ hmem)

namespace Overlay.Within

variable {overlay : Overlay} {limit : Nat} {node : MerkleNode} {nowMs : Int}

theorem maxParentRank_le (hwithin : overlay.Within limit) (parents : List NodeHash) :
    (parents.filterMap overlay.getRank).foldl max 0 ≤ limit := by
  refine foldl_max_le (Nat.zero_le _) fun rank hmem => ?_
  obtain ⟨parent, -, hrank⟩ := List.mem_filterMap.mp hmem
  obtain ⟨held, hget, rfl⟩ := Option.map_eq_some_iff.mp hrank
  exact (hwithin parent held hget).rank

theorem lowestTime_le (hwithin : overlay.Within limit) : lowestTime ≤ node.minParentTs overlay := by
  refine le_foldl_min (by decide) fun time hmem => ?_
  obtain ⟨held, hheld, rfl⟩ := List.mem_map.mp hmem
  obtain ⟨parent, -, hget⟩ := List.mem_filterMap.mp hheld
  exact (hwithin parent held hget).timestamp

theorem expectedRank_isSome (hwithin : overlay.Within limit) (hlimit : limit < u64Max) :
    (node.expectedRank overlay).isNone = false := by
  unfold MerkleNode.expectedRank
  split
  · rfl
  · rw [Bool.eq_false_iff, ne_eq, addU64_isNone]
    have := hwithin.maxParentRank_le node.parents
    omega

theorem windows_fit (hwithin : overlay.Within limit)
    (htime : lowestTime ≤ nowMs ∧ nowMs ≤ highestTime) :
    node.windowsOverflow overlay nowMs = false := by
  have hparent : (addI64 (node.minParentTs overlay) (-600000)).isNone = false := by
    have hlow : lowestTime ≤ node.minParentTs overlay := hwithin.lowestTime_le
    have hhigh : node.minParentTs overlay ≤ i64Max := by
      unfold MerkleNode.minParentTs
      generalize ((node.parents.filterMap overlay.getNode).map MerkleNode.networkTimestamp) = times
      have hfold : ∀ (times : List Int) (start : Int), times.foldl min start ≤ start := by
        intro times
        induction times with
        | nil => exact fun start => le_refl start
        | cons time rest ih => exact fun start => (ih _).trans (min_le_left _ _)
      exact hfold times i64Max
    rw [Bool.eq_false_iff, ne_eq, addI64_isNone]
    unfold lowestTime at hlow
    omega
  have hclock : (addI64 nowMs 600000).isNone = false := by
    rw [Bool.eq_false_iff, ne_eq, addI64_isNone]
    unfold lowestTime highestTime at htime
    omega
  unfold MerkleNode.windowsOverflow
  rw [hparent, hclock, Bool.and_false, Bool.or_false]

variable [Primitives]

theorem check_fits {engine : Engine} {store : InMemoryStore}
    (hwithin : (engine.overlay store).Within limit) (hlimit : limit < u64Max)
    (htime : lowestTime ≤ nowMs ∧ nowMs ≤ highestTime) :
    engine.checkOverflows store node nowMs = false := by
  unfold Engine.checkOverflows MerkleNode.rankOverflows
  rw [hwithin.expectedRank_isSome hlimit, hwithin.windows_fit htime, Bool.and_false,
    Bool.and_false, Bool.or_false]

end Overlay.Within

/-! ## What a call can bring in -/

section Calls

variable [Primitives]

/-- The nodes of store and cache stay within a bound on the nodes that were evaluated, plus
one for each node that the engine authored. -/
structure Engine.Within (engine : Engine) (store : InMemoryStore) (bound : Nat) : Prop where
  stored : ∀ nodeHash node, store.getNode nodeHash = some node →
    node.Within (bound + engine.authored.length)
  cached : ∀ nodeHash node, engine.pendingCache.nodes.get nodeHash = some node →
    node.Within (bound + engine.authored.length)

/-- The nodes that effects write are within a limit. -/
def WritesWithin (effects : List Effect) (limit : Nat) : Prop :=
  ∀ conversationId node verified, .writeStore conversationId node verified ∈ effects →
    node.Within limit

variable {limit : Nat} {node : MerkleNode} {world : World}

omit [Primitives] in
theorem WritesWithin.append {first second : List Effect} (hfirst : WritesWithin first limit)
    (hsecond : WritesWithin second limit) : WritesWithin (first ++ second) limit := by
  intro conversationId node verified hmem
  rcases List.mem_append.mp hmem with hmem | hmem
  · exact hfirst conversationId node verified hmem
  · exact hsecond conversationId node verified hmem

omit [Primitives] in
theorem WritesWithin.mono {effects : List Effect} {limit higher : Nat}
    (hwrites : WritesWithin effects limit) (hle : limit ≤ higher) : WritesWithin effects higher :=
  fun conversationId node verified hmem => (hwrites conversationId node verified hmem).mono hle

omit [Primitives] in
theorem WritesWithin.of_private {effects : List Effect}
    (hprivate : ∀ effect ∈ effects, effect.isPrivate = true) : WritesWithin effects limit :=
  fun _ _ _ hmem => nomatch hprivate _ hmem

omit [Primitives] in
theorem Engine.Within.overlay {engine : Engine} {store : InMemoryStore} {bound : Nat}
    (hwithin : engine.Within store bound) :
    (engine.overlay store).Within (bound + engine.authored.length) := by
  intro nodeHash node hget
  unfold Overlay.getNode Engine.overlay at hget
  cases hcached : engine.pendingCache.nodes.get nodeHash with
  | some held =>
      rw [hcached] at hget
      exact hwithin.cached nodeHash node (hcached.trans hget)
  | none =>
      rw [hcached] at hget
      exact hwithin.stored nodeHash node hget

/-- What a call preserves, and what it writes. -/
structure Engine.Keeps (before : Engine) (store : InMemoryStore) (bound : Nat)
    (effects : List Effect) (after : Engine) : Prop where
  within : after.Within store bound
  authored : before.authored.length ≤ after.authored.length
  writes : WritesWithin effects (bound + after.authored.length)

variable {store : InMemoryStore} {nowMs : Int} {origin : Sources}
variable {before middle after : Engine} {effects : List Effect} {bound : Nat}

theorem Engine.Within.putNode (hwithin : before.Within store bound)
    (conversationId : ConversationId) (verified : Bool) (hnode : node.Within limit)
    (hlimit : bound + before.authored.length ≤ limit) :
    ∀ nodeHash held,
      (before.pendingCache.putNode conversationId node verified).nodes.get nodeHash = some held →
        held.Within limit := by
  intro nodeHash held hget
  rw [PendingCache.nodes_putNode] at hget
  split at hget
  · cases hget
    exact hnode
  · exact (hwithin.cached nodeHash held hget).mono hlimit

omit [Primitives] in
theorem getNode_of_mem_getVerifiedNodesByType {nodeType : NodeType}
    (hmem : node ∈ store.getVerifiedNodesByType nodeType) :
    ∃ nodeHash, store.getNode nodeHash = some node := by
  unfold InMemoryStore.getVerifiedNodesByType sortByKey at hmem
  rw [(List.perm_insertionSort _ _).mem_iff, List.mem_map] at hmem
  obtain ⟨stored, hstored, rfl⟩ := hmem
  obtain ⟨entry, hentry, rfl⟩ := List.mem_map.mp (List.mem_filter.mp hstored).1
  refine ⟨entry.1, ?_⟩
  rw [InMemoryStore.getNode, AssocMap.get_eq_some_iff.mpr hentry, Option.map_some]

omit [Primitives] in
/-- An own node is one above the nodes at hand. -/
theorem Drafted.within {overlay : Overlay} {conversationId : ConversationId}
    (hdraft : Drafted overlay conversationId nowMs node) (hwithin : overlay.Within limit)
    (htime : lowestTime ≤ nowMs) : node.Within (limit + 1) where
  rank := by
    rw [hdraft.rank]
    split
    · exact Nat.zero_le _
    · exact (Nat.mod_le _ _).trans (Nat.succ_le_succ (hwithin.maxParentRank_le node.parents))
  timestamp := hdraft.timestamp ▸ htime

theorem Move.keeps (hmove : Move store nowMs origin before effects after)
    (horigin : ∀ conversationId node, origin.evaluated conversationId node → node.Within bound)
    (htime : lowestTime ≤ nowMs) (hwithin : before.Within store bound) :
    before.Keeps store bound effects after := by
  cases hmove with
  | quiet hsettled hprivate =>
      have hcache := Engine.pendingCache_of_settled hsettled
      have hauthored := Engine.authored_of_settled hsettled
      refine ⟨⟨?_, ?_⟩, le_of_eq (congrArg List.length hauthored).symm, .of_private hprivate⟩
      · rw [hauthored]
        exact hwithin.stored
      · rw [hauthored, hcache]
        exact hwithin.cached
  | learn known => exact ⟨⟨hwithin.stored, hwithin.cached⟩, le_refl _, fun _ _ _ h => nomatch h⟩
  | evaluated conversationId node verified hnode =>
      have hnode : node.Within (bound + before.authored.length) :=
        (horigin conversationId node hnode).mono (Nat.le_add_right _ _)
      refine ⟨⟨hwithin.stored, hwithin.putNode conversationId verified hnode (le_refl _)⟩,
        le_refl _, fun _ _ _ hmem => ?_⟩
      cases List.mem_singleton.mp hmem
      exact hnode
  | accept conversationId node pairs =>
      exact ⟨⟨hwithin.stored, hwithin.cached⟩, le_refl _, fun _ _ _ h => nomatch h⟩
  | own conversationId node hdraft =>
      -- A node of our own may rank one above all that it was drafted on.
      have hnode : node.Within (bound + (before.authored.length + 1)) :=
        hdraft.within hwithin.overlay htime
      have hlimit : bound + before.authored.length ≤ bound + (before.authored.length + 1) := by
        omega
      refine ⟨⟨fun nodeHash held hget => (hwithin.stored nodeHash held hget).mono hlimit,
        hwithin.putNode conversationId true hnode hlimit⟩, Nat.le_succ _, fun _ _ _ hmem => ?_⟩
      cases List.mem_singleton.mp hmem
      exact hnode
  | ownWire conversationId node wire hauthored hcached =>
      exact ⟨⟨hwithin.stored, hwithin.cached⟩, le_refl _, fun _ _ _ h => by simp at h⟩
  | recheck conversationId node hstored =>
      refine ⟨⟨hwithin.stored, ?_⟩, le_refl _, fun _ _ _ h => nomatch h⟩
      simp only [PendingCache.nodes_markVerified]
      exact hwithin.cached
  | invalidate conversationId node hstored =>
      refine ⟨hwithin, le_refl _, fun _ written _ hmem => ?_⟩
      simp only [List.mem_cons, Effect.writeStore.injEq, reduceCtorEq, List.not_mem_nil, or_self,
        or_false] at hmem
      rw [hmem.2.1]
      obtain ⟨nodeHash, hget⟩ := getNode_of_mem_getVerifiedNodesByType hstored
      exact hwithin.stored nodeHash node hget
  | heads conversationId node =>
      unfold Engine.updateHeads
      simp only
      split
      · exact ⟨⟨hwithin.stored, hwithin.cached⟩, le_refl _, fun _ _ _ h => by simp at h⟩
      · exact ⟨⟨hwithin.stored, hwithin.cached⟩, le_refl _, fun _ _ _ h => by simp at h⟩

theorem Trace.keeps (htrace : Trace store nowMs origin before effects after)
    (horigin : ∀ conversationId node, origin.evaluated conversationId node → node.Within bound)
    (htime : lowestTime ≤ nowMs) (hwithin : before.Within store bound) :
    before.Keeps store bound effects after := by
  induction htrace with
  | refl => exact ⟨hwithin, le_refl _, fun _ _ _ h => nomatch h⟩
  | keep _ hmove _ ih =>
      have hkept := hmove.keeps horigin htime ih.within
      refine ⟨hkept.within, ih.authored.trans hkept.authored, .append ?_ hkept.writes⟩
      exact ih.writes.mono (Nat.add_le_add_left hkept.authored _)
  | lose _ hmove ih =>
      have hlost := hmove.keeps horigin htime ih.within
      exact ⟨hlost.within, ih.authored.trans hlost.authored,
        ih.writes.mono (Nat.add_le_add_left hlost.authored _)⟩
  | clear _ ih =>
      refine ⟨⟨ih.within.stored, fun _ _ hget => ?_⟩, ih.authored, ih.writes⟩
      exact nomatch hget

/-! ## The checks of an evaluation -/

namespace Engine

variable {engine : Engine} {conversationId : ConversationId} {node : MerkleNode}

theorem Within.check_fits {limit : Nat} (hwithin : engine.Within store bound)
    (hle : engine.authored.length ≤ limit) (hlimit : bound + limit < u64Max)
    (htime : lowestTime ≤ nowMs ∧ nowMs ≤ highestTime) :
    engine.checkOverflows store node nowMs = false :=
  hwithin.overlay.check_fits ((Nat.add_le_add_left hle bound).trans_lt hlimit) htime

theorem revalidation_fits {nodes : List MerkleNode}
    (hstored : ∀ node ∈ nodes, node ∈ store.getVerifiedNodesByType node.nodeType)
    (htime : lowestTime ≤ nowMs ∧ nowMs ≤ highestTime) (hwithin : engine.Within store bound)
    (hlimit : bound +
      (engine.revalidateNodes store conversationId nowMs nodes).2.authored.length < u64Max) :
    engine.revalidationOverflows store conversationId nowMs nodes = false := by
  have hnone : ∀ (conversationId : ConversationId) node,
      Sources.calls.evaluated conversationId node → MerkleNode.Within node bound :=
    fun _ _ h => h.elim
  induction nodes generalizing engine with
  | nil => rfl
  | cons node rest ih =>
      have hkeeps := (engine.revalidateNodes_trace store conversationId nowMs hstored).keeps
        hnone htime.1 hwithin
      have hverified := (engine.verifyNode_trace store conversationId node nowMs
        (hstored node List.mem_cons_self)).keeps hnone htime.1 hwithin
      have hlater : (engine.revalidateNodes store conversationId nowMs (node :: rest)).2 =
          ((engine.verifyNode store conversationId node nowMs).2.revalidateNodes store
            conversationId nowMs rest).2 := by
        rw [revalidateNodes]
        split
        next heq => rw [heq]
        next heq => rw [heq]
      rw [revalidationOverflows, hwithin.check_fits hkeeps.authored hlimit htime, Bool.false_or]
      rw [hlater] at hlimit
      exact ih (fun other hmem => hstored other (List.mem_cons_of_mem _ hmem)) hverified.within
        hlimit

theorem settle_fits {verified authentic : Bool}
    (htime : lowestTime ≤ nowMs ∧ nowMs ≤ highestTime) (hwithin : engine.Within store bound)
    (hlimit : bound + (engine.settle store conversationId node verified authentic
      nowMs).2.authored.length < u64Max) :
    engine.settleOverflows store conversationId node verified authentic nowMs = false := by
  have hside : Outcome.Traces _ store nowMs .calls engine :=
    engine.applySideEffects_trace store conversationId node nowMs fun engine flag =>
      engine.rotateConversationKey_trace store conversationId nowMs flag
  unfold settle at hlimit
  unfold settleOverflows
  split
  next happlied =>
    rw [if_pos happlied] at hlimit
    split
    next => rfl
    next effects acted heq =>
      rw [heq] at hlimit
      simp only at hlimit
      have hacted := (hside.ok heq).keeps (fun _ _ h => h.elim) htime.1 hwithin
      split at hlimit
      next hchanges =>
        rw [hchanges, Bool.true_and]
        refine revalidation_fits (fun other hmem => ?_) htime hacted.within hlimit
        unfold sortByKey at hmem
        rw [(List.perm_insertionSort _ _).mem_iff, List.mem_append] at hmem
        rcases hmem with hmem | hmem <;> exact mem_getVerifiedNodesByType hmem
      next hkeeps => rw [Bool.eq_false_iff.mpr hkeeps, Bool.false_and]
  next => rfl

theorem conclude_fits {assessment : Assessment} (hnode : node.Within bound)
    (htime : lowestTime ≤ nowMs ∧ nowMs ≤ highestTime) (hwithin : engine.Within store bound)
    (hlimit : bound + (engine.conclude store conversationId node assessment
      nowMs).2.authored.length < u64Max) :
    engine.concludeOverflows store conversationId node assessment nowMs = false := by
  obtain ⟨manager, conversations, consumed, restored, dedup, hframe⟩ :=
    engine.judgement_frame store conversationId node assessment
  unfold conclude commit at hlimit
  unfold concludeOverflows
  unfold judgement at hframe
  simp only at hlimit hframe ⊢
  split
  next => rfl
  next stored heq =>
    rw [heq] at hlimit
    simp only at hlimit
    have hstored := storeNode_ok heq
    have hput : stored.Within store bound := by
      rw [hstored, hframe]
      refine ⟨hwithin.stored, hwithin.putNode conversationId _ ?_ (le_refl _)⟩
      exact hnode.mono (Nat.le_add_right _ _)
    have hrecorded : ∀ opkIds verified authentic, (stored.recordNode conversationId node opkIds
        verified authentic nowMs).Within store bound := by
      intro opkIds verified authentic
      obtain ⟨conversations, keys, seqs, hrecord⟩ :=
        stored.recordNode_frame conversationId node nowMs opkIds verified authentic
      rw [hrecord]
      exact ⟨hput.stored, hput.cached⟩
    refine settle_fits htime (hrecorded _ _ _) ?_
    split at hlimit
    next heq => rwa [heq]
    next heq => rwa [heq]

theorem evaluation_fits (hnode : node.Within bound)
    (htime : lowestTime ≤ nowMs ∧ nowMs ≤ highestTime) (hwithin : engine.Within store bound)
    (hlimit : bound + (engine.evaluateNode store conversationId node
      nowMs).2.authored.length < u64Max) :
    engine.evaluationOverflows store conversationId node nowMs = false := by
  have htrace : Trace store nowMs (.evaluation node) engine _ _ :=
    engine.evaluateNode_trace store conversationId node nowMs rfl
  have hkeeps := htrace.keeps (fun _ _ heq => heq ▸ hnode) htime.1 hwithin
  have hvetted : Trace store nowMs .calls engine [] _ :=
    engine.vet_trace store conversationId node nowMs
  unfold evaluationOverflows
  rw [hwithin.check_fits hkeeps.authored hlimit htime, Bool.false_or]
  unfold evaluateNode at hlimit
  split
  next => rfl
  next assessment vetted heq =>
    rw [heq] at hlimit hvetted
    exact conclude_fits hnode htime (hvetted.keeps (fun _ _ h => h.elim) htime.1 hwithin).within
      hlimit

end Engine

/-! ## Runs -/

/-- The nodes at hand are within the bound, and as long as the own nodes leave room the checks
of all evaluations fit. -/
structure World.Fits (world : World) (bound : Nat) : Prop where
  within : world.engine.Within world.store bound
  checks : bound + world.engine.authored.length < u64Max →
    ∀ evaluation ∈ world.evaluations, evaluation.overflows = false

/-- What a passage preserves, and what it writes. -/
structure World.Carries (before : World) (bound : Nat) (effects : List Effect) (after : World) :
    Prop where
  fits : after.Fits bound
  authored : before.engine.authored.length ≤ after.engine.authored.length
  writes : WritesWithin effects (bound + after.engine.authored.length)

theorem World.evaluate_carries (conversationId : ConversationId) (hnode : node.Within bound)
    (htime : lowestTime ≤ nowMs ∧ nowMs ≤ highestTime) (hfits : world.Fits bound) :
    world.Carries bound
      (Engine.evaluationEffects (world.evaluate conversationId node nowMs).1)
      (world.evaluate conversationId node nowMs).2 := by
  have htrace : Trace world.store nowMs (.evaluation node) world.engine _ _ :=
    world.engine.evaluateNode_trace world.store conversationId node nowMs rfl
  have hkeeps := htrace.keeps (fun _ _ heq => heq ▸ hnode) htime.1 hfits.within
  refine ⟨⟨hkeeps.within, fun hlimit evaluation hmem => ?_⟩, hkeeps.authored, hkeeps.writes⟩
  rcases List.mem_append.mp hmem with hmem | hmem
  · exact hfits.checks ((Nat.add_le_add_left hkeeps.authored bound).trans_lt hlimit) evaluation
      hmem
  · cases List.mem_singleton.mp hmem
    exact Engine.evaluation_fits hnode htime hfits.within hlimit

theorem PendingCache.noteReverified_nodes {cache : PendingCache}
    {nodes : List (ConversationId × MerkleNode)}
    (hcached : ∀ nodeHash node, cache.nodes.get nodeHash = some node → node.Within limit)
    (hnodes : ∀ written ∈ nodes, written.2.Within limit) :
    ∀ nodeHash node, (nodes.foldl
      (fun cache (conversationId, node) => cache.noteReverified conversationId node)
      cache).nodes.get nodeHash = some node → node.Within limit := by
  induction nodes generalizing cache with
  | nil => exact hcached
  | cons written rest ih =>
      refine ih ?_ fun other hmem => hnodes other (List.mem_cons_of_mem _ hmem)
      intro nodeHash node hget
      unfold noteReverified at hget
      rw [AssocMap.get_insert] at hget
      split at hget
      · cases hget
        exact hnodes written List.mem_cons_self
      · exact hcached nodeHash node hget

omit [Primitives] in
theorem WritesWithin.verified (hwrites : WritesWithin effects limit) :
    ∀ written ∈ World.verifiedWrites effects, written.2.Within limit := by
  intro written hmem
  obtain ⟨effect, heffect, hwritten⟩ := List.mem_filterMap.mp hmem
  split at hwritten
  · cases hwritten
    exact hwrites _ _ _ heffect
  · cases hwritten

theorem Passage.carries {before after : World} (hpassage : Passage nowMs before effects after)
    (hnodes : ∀ evaluation ∈ after.evaluations, evaluation.node.Within bound)
    (htime : lowestTime ≤ nowMs ∧ nowMs ≤ highestTime) (hfits : before.Fits bound) :
    before.Carries bound effects after := by
  induction hpassage with
  | refl => exact ⟨hfits, le_refl _, fun _ _ _ h => nomatch h⟩
  | evaluate conversationId node hpassage ih =>
      have hfirst := ih fun evaluation hmem => hnodes evaluation (List.mem_append_left _ hmem)
      have hnode : node.Within bound :=
        hnodes _ (List.mem_append_right _ (List.mem_singleton_self _))
      have hnext := World.evaluate_carries conversationId hnode htime hfirst.fits
      exact ⟨hnext.fits, hfirst.authored.trans hnext.authored,
        (hfirst.writes.mono (Nat.add_le_add_left hnext.authored _)).append hnext.writes⟩
  | forget conversationId node hpassage ih =>
      have hfirst := ih fun evaluation hmem => hnodes evaluation (List.mem_append_left _ hmem)
      have hnode : node.Within bound :=
        hnodes _ (List.mem_append_right _ (List.mem_singleton_self _))
      have hnext := World.evaluate_carries conversationId hnode htime hfirst.fits
      exact ⟨hnext.fits, hfirst.authored.trans hnext.authored,
        hfirst.writes.mono (Nat.add_le_add_left hnext.authored _)⟩
  | call _ htrace ih =>
      have hfirst := ih hnodes
      have hkeeps := htrace.keeps (fun _ _ h => h.elim) htime.1 hfirst.fits.within
      have hlimit := Nat.add_le_add_left hkeeps.authored bound
      exact ⟨⟨hkeeps.within, fun hroom => hfirst.fits.checks (hlimit.trans_lt hroom)⟩,
        hfirst.authored.trans hkeeps.authored,
        (hfirst.writes.mono hlimit).append hkeeps.writes⟩
  | note _ hwritten ih =>
      have hfirst := ih hnodes
      refine ⟨⟨⟨hfirst.fits.within.stored, ?_⟩, hfirst.fits.checks⟩, hfirst.authored,
        hfirst.writes⟩
      refine PendingCache.noteReverified_nodes hfirst.fits.within.cached ?_
      refine WritesWithin.verified fun conversationId node verified hmem => ?_
      exact hfirst.writes conversationId node verified (hwritten hmem)
  | hold conversationId _ hwire ih =>
      have hfirst := ih hnodes
      refine ⟨⟨⟨hfirst.fits.within.stored, hfirst.fits.within.cached⟩, hfirst.fits.checks⟩,
        hfirst.authored, hfirst.writes.append fun _ _ _ hmem => ?_⟩
      cases List.mem_singleton.mp hmem
  | drop nodeHash _ ih =>
      have hfirst := ih hnodes
      exact ⟨⟨⟨hfirst.fits.within.stored, hfirst.fits.within.cached⟩, hfirst.fits.checks⟩,
        hfirst.authored, hfirst.writes⟩

theorem InMemoryStore.applyEffects_within
    (hstored : ∀ nodeHash node, store.getNode nodeHash = some node → node.Within limit)
    (hwrites : WritesWithin effects limit) :
    ∀ nodeHash node, (store.applyEffects effects).getNode nodeHash = some node →
      node.Within limit := by
  induction effects generalizing store with
  | nil => exact hstored
  | cons effect rest ih =>
      refine ih ?_ fun conversationId node verified hmem =>
        hwrites conversationId node verified (List.mem_cons_of_mem _ hmem)
      intro nodeHash node hget
      unfold applyEffect at hget
      split at hget
      next conversationId written verified =>
        rw [getNode_putNode] at hget
        split at hget
        · cases hget
          exact hwrites conversationId _ verified List.mem_cons_self
        · exact hstored nodeHash node hget
      all_goals exact hstored nodeHash node hget

theorem World.Fits.finish {outcome : Except MerkleToxError (List Effect)} (hfits : world.Fits bound)
    (hwrites : ∀ effects, outcome = .ok effects →
      WritesWithin effects (bound + world.engine.authored.length)) :
    (world.finish outcome).Fits bound := by
  cases outcome with
  | error error => exact hfits
  | ok effects =>
      refine ⟨⟨?_, fun _ _ h => nomatch h⟩, hfits.checks⟩
      exact InMemoryStore.applyEffects_within hfits.within.stored (hwrites effects rfl)

variable [WireCodec]

/-- The node of an evaluation is within the bound. -/
def World.Bounded (world : World) (bound : Nat) : Prop :=
  ∀ evaluation ∈ world.evaluations, evaluation.node.Within bound

/-- The clock is more than ten minutes from both ends of its type. -/
def Command.Timely (command : Command) : Prop :=
  ∀ nowMs, command.time = some nowMs → lowestTime ≤ nowMs ∧ nowMs ≤ highestTime

omit [WireCodec] in
theorem World.finish_evaluations (world : World)
    (outcome : Except MerkleToxError (List Effect)) :
    (world.finish outcome).evaluations = world.evaluations ∧
      (world.finish outcome).engine.authored = world.engine.authored := by
  cases outcome <;> exact ⟨rfl, rfl⟩

theorem World.step_fits {command : Command} (hfits : world.Fits bound) (htimely : command.Timely)
    (hbounded : (world.step command).Bounded bound) : (world.step command).Fits bound := by
  cases htime : command.time with
  | none =>
      cases command with
      | storeWire conversationId nodeHash wire =>
          have hwire : WritesWithin [.writeWireNode conversationId nodeHash wire]
              (bound + world.engine.authored.length) :=
            fun _ _ _ hmem => nomatch List.mem_singleton.mp hmem
          show (world.finish (.ok [.writeWireNode conversationId nodeHash wire])).Fits bound
          refine hfits.finish fun effects heq => ?_
          cases heq
          exact hwire
      | _ => cases htime
  | some nowMs =>
      obtain ⟨⟨result, after⟩, hpasses, hstep⟩ := world.step_passes htime
      rw [hstep] at hbounded ⊢
      unfold World.Bounded at hbounded
      rw [(after.finish_evaluations result).1] at hbounded
      cases result with
      | error error =>
          exact (Passage.carries hpasses hbounded (htimely nowMs htime) hfits).fits
      | ok effects =>
          have hcarries := Passage.carries hpasses hbounded (htimely nowMs htime) hfits
          refine hcarries.fits.finish fun kept heq => ?_
          cases heq
          exact hcarries.writes

omit [WireCodec] in
/-- Loading a conversation touches neither the nodes at hand nor the own nodes. -/
theorem Engine.loadConversationState_same (engine : Engine) (store : InMemoryStore)
    (conversationId : ConversationId) (nowMs : Int) :
    (engine.loadConversationState store conversationId nowMs).pendingCache.nodes =
        engine.pendingCache.nodes ∧
      (engine.loadConversationState store conversationId nowMs).authored = engine.authored := by
  have hreplay : ∀ (nodes : List MerkleNode) (engine : Engine),
      (nodes.foldl (replayNode store conversationId) engine).pendingCache = engine.pendingCache ∧
        (nodes.foldl (replayNode store conversationId) engine).authored = engine.authored := by
    intro nodes
    induction nodes with
    | nil => exact fun engine => ⟨rfl, rfl⟩
    | cons node rest ih =>
        intro engine
        have hfirst : (engine.replayNode store conversationId node).pendingCache =
              engine.pendingCache ∧
            (engine.replayNode store conversationId node).authored = engine.authored := by
          unfold replayNode
          dsimp only
          unfold replayAction
          split <;> exact ⟨rfl, rfl⟩
        exact ⟨(ih _).1.trans hfirst.1, (ih _).2.trans hfirst.2⟩
  have hsequences : ∀ (nodes : List MerkleNode) (cache : PendingCache),
      (noteSequences cache conversationId nodes).nodes = cache.nodes := by
    intro nodes
    induction nodes with
    | nil => exact fun cache => rfl
    | cons node rest ih => exact fun cache => ih _
  unfold loadConversationState
  dsimp only [setConversation]
  rw [hsequences, (hreplay _ _).1]
  exact ⟨rfl, (hreplay _ _).2⟩

/-- Where a command has a time, the clock is more than ten minutes from both ends of its
type. -/
def LifetimeCommand.Timely : LifetimeCommand → Prop
  | .call command => command.Timely
  | .load .. => True

theorem World.live_fits {command : LifetimeCommand} (hfits : world.Fits bound)
    (htimely : command.Timely) (hbounded : (world.live command).Bounded bound) :
    (world.live command).Fits bound := by
  cases command with
  | call command => exact world.step_fits hfits htimely hbounded
  | load conversationId nowMs =>
      have hsame := world.engine.loadConversationState_same world.store conversationId nowMs
      refine ⟨⟨?_, ?_⟩, ?_⟩
      · simp only [live, withEngine, hsame.2]
        exact hfits.within.stored
      · simp only [live, withEngine, hsame.1, hsame.2]
        exact hfits.within.cached
      · simp only [live, withEngine, hsame.2]
        exact hfits.checks

theorem World.live_evaluations (world : World) (command : LifetimeCommand) :
    world.evaluations <+: (world.live command).evaluations := by
  cases command with
  | call command => exact (world.step_steps command).evolves.1
  | load conversationId nowMs => exact List.prefix_rfl

theorem World.lifetime_evaluations (world : World) (commands : List LifetimeCommand) :
    world.evaluations <+: (world.lifetime commands).evaluations := by
  induction commands generalizing world with
  | nil => exact List.prefix_rfl
  | cons command rest ih => exact (world.live_evaluations command).trans (ih _)

theorem World.lifetime_fits {commands : List LifetimeCommand} (hfits : world.Fits bound)
    (htimely : ∀ command ∈ commands, command.Timely)
    (hbounded : (world.lifetime commands).Bounded bound) :
    (world.lifetime commands).Fits bound := by
  induction commands generalizing world with
  | nil => exact hfits
  | cons command rest ih =>
      have hlater := (world.live command).lifetime_evaluations rest
      refine ih (world.live_fits hfits (htimely command List.mem_cons_self) ?_) ?_ hbounded
      · exact fun evaluation hmem => hbounded evaluation (hlater.subset hmem)
      · exact fun other hmem => htimely other (List.mem_cons_of_mem _ hmem)

end Calls

/-! ## Sessions -/

section Sessions

variable {node : MerkleNode} {store : InMemoryStore} {session : SessionCommon}

theorem SessionCommon.missParent_isSome {parent : NodeHash}
    (hrank : node.topologicalRank + hotWindowRanks ≤ u64Max) :
    (session.missParent node store parent).isSome := by
  have hsum : addU64 (node.topologicalRank - 1) hotWindowRanks =
      some (node.topologicalRank - 1 + hotWindowRanks) := if_pos (by omega)
  unfold missParent enqueueMissing
  split
  · rfl
  · split
    · rfl
    · simp only [hsum, bind, Option.bind, pure]
      split
      · rfl
      · split <;> rfl

/-- A node whose rank leaves room for the window is queued without overflow. -/
theorem PeerSession.onNodeReceived_isSome [Primitives]
    (hrank : node.topologicalRank + hotWindowRanks ≤ u64Max)
    (hasBlob : Option (NodeHash → Bool)) (session : PeerSession) :
    (session.onNodeReceived node store hasBlob).isSome := by
  have hparents : ∀ (parents : List NodeHash) (session : SessionCommon),
      (parents.foldlM (SessionCommon.missParent node store) session).isSome := by
    intro parents
    induction parents with
    | nil => exact fun session => rfl
    | cons parent rest ih =>
        intro session
        have hfirst : (session.missParent node store parent).isSome :=
          SessionCommon.missParent_isSome hrank
        obtain ⟨missed, hmissed⟩ := Option.isSome_iff_exists.mp hfirst
        rw [List.foldlM_cons, hmissed]
        exact ih missed
  cases session with
  | handshake session => rfl
  | active session =>
      unfold onNodeReceived
      dsimp only
      split
      · rfl
      · split
        · rfl
        · rw [Option.isSome_map]
          exact hparents _ _

end Sessions

/-- While the nodes of the store and the nodes that are evaluated leave room for the window
and for the own nodes below `u64::MAX`, and for ten minutes above `i64::MIN`, no check of an
evaluation and no session overflows. -/
theorem lifetime_arithmetic_exact [Primitives] [WireCodec] (selfPk : PhysicalDevicePk)
    (selfLogicalPk : LogicalIdentityPk) (selfSk : Option SigningKey)
    (selfDhSk : Option EphemeralX25519Sk) (rng : Rng) (store : InMemoryStore)
    (commands : List LifetimeCommand) (bound : Nat)
    (hstored : ∀ nodeHash node, store.getNode nodeHash = some node → node.Within bound)
    (hevaluated : ∀ evaluation ∈ (World.lifetime
      ⟨.new selfPk selfLogicalPk selfSk selfDhSk rng, store, [], []⟩ commands).evaluations,
      evaluation.node.Within bound)
    (htimely : ∀ command ∈ commands, command.Timely)
    (hroom : bound + (World.lifetime ⟨.new selfPk selfLogicalPk selfSk selfDhSk rng, store, [], []⟩
      commands).engine.authored.length + hotWindowRanks ≤ u64Max) :
    ∀ evaluation ∈ (World.lifetime
      ⟨.new selfPk selfLogicalPk selfSk selfDhSk rng, store, [], []⟩ commands).evaluations,
      evaluation.overflows = false ∧
        ∀ (session : PeerSession) (hasBlob : Option (NodeHash → Bool)),
          (session.onNodeReceived evaluation.node evaluation.store hasBlob).isSome := by
  have hfits : World.Fits ⟨.new selfPk selfLogicalPk selfSk selfDhSk rng, store, [], []⟩ bound :=
    ⟨⟨hstored, fun _ _ hget => nomatch hget⟩, fun _ _ hmem => nomatch hmem⟩
  intro evaluation hmem
  constructor
  · refine (World.lifetime_fits hfits htimely hevaluated).checks ?_ evaluation hmem
    unfold hotWindowRanks at hroom
    omega
  · intro session hasBlob
    refine PeerSession.onNodeReceived_isSome ?_ hasBlob session
    have hrank := (hevaluated evaluation hmem).rank
    omega

namespace Arithmetic

/-! ## A node of the highest rank -/

open Reference

/-- An observer with keys of its own. -/
def observer : World := ⟨.new ⟨5⟩ ⟨5⟩ none none ⟨1, 0⟩, .new, [], []⟩

/-- A text of an unknown device; its rank is checked only when its parents are known. -/
def text (parent : NodeHash) (rank : Nat) : MerkleNode :=
  { parents := [parent]
    authorPk := ⟨9⟩
    senderPk := ⟨9⟩
    sequenceNumber := 1
    topologicalRank := rank
    networkTimestamp := 1000
    content := .text "hi"
    metadata := []
    authentication := .ephemeralSignature ⟨0⟩
    powNonce := 0 }

/-- The parent of this node is missing. -/
def hostile : MerkleNode := text ⟨3⟩ u64Max

def reply : MerkleNode := text (hash hostile) 1

def arrival (node : MerkleNode) : LifetimeCommand := .call (.handleNode room node 1000 1)

/-- A session after its handshake. -/
def session : PeerSession := .active
  { shallow := false
    minRank := 0
    minTimestamp := 0
    localHeads := []
    remoteHeads := []
    missingNodesHot := []
    missingNodesCold := []
    inFlightFetches := []
    missingBlobs := []
    headsDirty := false
    maxBackfillNodes := 0
    backfillCount := 0 }

/-- A text without its parent, one that names it as its parent and, after a restart, one on
the genesis. -/
def speculation : List LifetimeCommand :=
  [arrival (text ⟨3⟩ 5), arrival (text (hash (text ⟨3⟩ 5)) 6), .load room 1000,
    arrival (text (hash genesis) 1)]

/-- From a store that has the genesis: the first text is stored unchecked, its rank is what
the check of the second starts from, and no sum overflows. -/
theorem lifetime_arithmetic_exact_speculation :
    let start : World := ⟨.new ⟨5⟩ ⟨5⟩ none none ⟨1, 0⟩, InMemoryStore.new.putNode genesis true, [],
      []⟩
    ((World.lifetime start speculation).evaluations.map fun evaluation =>
        (evaluation.node, evaluation.store.hasNode (hash (text ⟨3⟩ 5)))) =
      [(text ⟨3⟩ 5, false), (text (hash (text ⟨3⟩ 5)) 6, true), (text (hash genesis) 1, true)] ∧
    ((World.lifetime start speculation).evaluations.all fun evaluation =>
      !evaluation.overflows &&
        (session.onNodeReceived evaluation.node evaluation.store none).isSome) = true := by
  intro start
  have hstored : ∀ nodeHash node,
      (InMemoryStore.new.putNode genesis true).getNode nodeHash = some node → node.Within 6 := by
    intro nodeHash node hget
    rw [InMemoryStore.getNode_putNode] at hget
    split at hget
    · obtain rfl := Option.some.inj hget
      exact ⟨by decide, by decide⟩
    · cases hget
  have hbounds : ∀ evaluation ∈ (World.lifetime start speculation).evaluations,
      evaluation.node.topologicalRank ≤ 6 ∧ lowestTime ≤ evaluation.node.networkTimestamp := by
    decide +kernel
  have htimely : ∀ command ∈ speculation, command.Timely := by
    have harrival : ∀ node, (arrival node).Timely := by
      intro node nowMs htime
      cases htime
      decide
    simp only [speculation, List.forall_mem_cons, harrival, true_and]
    exact ⟨trivial, fun _ hmem => absurd hmem List.not_mem_nil⟩
  have hexact := lifetime_arithmetic_exact ⟨5⟩ ⟨5⟩ none none ⟨1, 0⟩
    (InMemoryStore.new.putNode genesis true) speculation 6 hstored
    (fun evaluation hmem => ⟨(hbounds evaluation hmem).1, (hbounds evaluation hmem).2⟩) htimely
    (by decide +kernel)
  refine ⟨by decide +kernel, List.all_eq_true.mpr fun evaluation hmem => ?_⟩
  obtain ⟨hfits, hlearns⟩ := hexact evaluation hmem
  rw [hfits, hlearns session none]
  rfl

/-- The session that learns of the node overflows, and so does the check of a reply to it. -/
theorem hostile_overflows :
    ((World.lifetime observer [arrival hostile, arrival reply]).evaluations.any fun evaluation =>
      evaluation.result.isOk && (session.onNodeReceived evaluation.node evaluation.store
        none).isNone) = true ∧
    ((World.lifetime observer [arrival hostile, arrival reply]).evaluations.any
      Evaluation.overflows) = true := by
  decide +kernel

end Arithmetic

end MerkleTox.Core
