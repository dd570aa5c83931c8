import MerkleTox.Core.OnceApplied
import MerkleTox.Library.Frontier

/-! # Heads and frontier

The heads of a track are meant to be its frontier: the verified nodes that no other verified
node of the track has as a parent. Each node that is verified drops its parents from the heads
and adds itself, which keeps the frontier as long as no node is verified after its children.
-/

namespace MerkleTox.Core

open Library Proto Relation

section Heads

variable [Primitives]

/-- The nodes of a track, in the order in which they are given. -/
def trackNodes (entries : List (ConversationId × MerkleNode)) (conversationId : ConversationId)
    (isAdmin : Bool) : List MerkleNode :=
  (entries.filter fun entry =>
    entry.1 = conversationId && entry.2.isAdmin = isAdmin).map Prod.snd

/-- The first of two nodes of one track does not have the second as a parent. -/
def Precedes (earlier later : ConversationId × MerkleNode) : Prop :=
  earlier.1 = later.1 → earlier.2.isAdmin = later.2.isAdmin → hash later.2 ∉ earlier.2.parents

instance : DecidableRel Precedes := fun earlier later => by
  unfold Precedes
  infer_instance

theorem mem_nextHeads {heads : List NodeHash} {node : MerkleNode} {head : NodeHash} :
    head ∈ Engine.nextHeads heads node ↔ (head ∈ heads ∧ head ∉ node.parents) ∨ head = hash node := by
  rw [Engine.nextHeads, mem_insertOnce, List.mem_filter, Bool.not_eq_true',
    ← Bool.not_eq_true, List.contains_iff_mem]

/-- Entering nodes one by one advances the heads of a track along its own nodes. -/
theorem enterHeads_advance (entries : List (ConversationId × MerkleNode))
    (heads : ConversationId → Bool → List NodeHash) (conversationId : ConversationId)
    (isAdmin : Bool) :
    {head | head ∈ entries.foldl (fun heads entry => enterHeads heads entry.1 entry.2) heads
        conversationId isAdmin} =
      (trackNodes entries conversationId isAdmin).foldl
        (History.advance hash MerkleNode.parents) {head | head ∈ heads conversationId isAdmin} := by
  induction entries generalizing heads with
  | nil => rfl
  | cons entry rest ih =>
      obtain ⟨written, node⟩ := entry
      rw [List.foldl_cons, ih, trackNodes, trackNodes, List.filter_cons]
      by_cases htrack : written = conversationId ∧ node.isAdmin = isAdmin
      · have hentered : {head | head ∈ enterHeads heads written node conversationId isAdmin} =
            History.advance hash MerkleNode.parents {head | head ∈ heads conversationId isAdmin}
              node := by
          ext head
          rw [enterHeads, if_pos ⟨htrack.1.symm, htrack.2.symm⟩, Set.mem_ofPred_eq, mem_nextHeads]
          rfl
        rw [if_pos (by simpa using htrack), hentered]
        rfl
      · have hkept : enterHeads heads written node conversationId isAdmin =
            heads conversationId isAdmin := by
          refine if_neg fun h => htrack ⟨h.1.symm, h.2.symm⟩
        rw [if_neg (by simpa using htrack), hkept]

/-- Nodes that are entered once each and before their children are in order on every track. -/
theorem trackNodes_ordered {entries : List (ConversationId × MerkleNode)}
    (hnodup : (entries.map fun entry => hash entry.2).Nodup) (hprecedes : entries.Pairwise Precedes)
    (conversationId : ConversationId) (isAdmin : Bool) :
    History.Ordered hash MerkleNode.parents (trackNodes entries conversationId isAdmin) := by
  have hdistinct : entries.Pairwise fun earlier later => hash earlier.2 ≠ hash later.2 :=
    List.pairwise_map.mp hnodup
  unfold History.Ordered trackNodes
  rw [List.pairwise_map, List.pairwise_filter]
  refine (hdistinct.and hprecedes).imp fun {earlier later} hpair hearlier hlater => ?_
  simp only [Bool.and_eq_true, decide_eq_true_eq] at hearlier hlater
  refine ⟨Ne.symm hpair.1, hpair.2 (hearlier.1.trans hlater.1.symm) ?_⟩
  exact hearlier.2.trans hlater.2.symm

/-! ## Along a run -/

/-- The nodes of a track that the run has written as verified, in that order. -/
def World.verifiedTrack (world : World) (conversationId : ConversationId) (isAdmin : Bool) :
    List MerkleNode :=
  trackNodes (World.verifiedWrites world.emitted) conversationId isAdmin

/-- One hash is a parent of the other in the verified nodes of a track. -/
def World.VerifiedParent (world : World) (conversationId : ConversationId) (isAdmin : Bool) :
    NodeHash → NodeHash → Prop :=
  History.ParentOf hash MerkleNode.parents (world.verifiedTrack conversationId isAdmin)

/-- The heads are what the applied nodes make of them, and these are the verified nodes. -/
structure World.HeadsFollow (world : World) : Prop where
  once : world.AppliedOnce
  verified : ∀ nodeHash, world.store.isVerified nodeHash = true ↔
    ∃ entry ∈ appliedNodes world.evaluations, nodeHash = hash entry.2
  heads : world.store.trackHeads = (appliedNodes world.evaluations).foldl
    (fun heads entry => enterHeads heads entry.1 entry.2) fun _ _ => []
  written : World.verifiedWrites world.emitted = appliedNodes world.evaluations

variable [WireCodec]

/-- A call that handles a node, all of whose evaluations are calm. -/
def World.CalmArrival (world : World) (command : Command) : Prop :=
  match command with
  | .handleNode .. => world.Calm command
  | _ => False

theorem World.HeadsFollow.step {world : World} (hfollow : world.HeadsFollow) {command : Command}
    (hcalm : world.CalmArrival command) : (world.step command).HeadsFollow := by
  cases command with
  | handleNode conversationId node nowMs fuel =>
      have hadvances := World.handleNode_advances hcalm
      have hnodes : appliedNodes
          (world.step (.handleNode conversationId node nowMs fuel)).evaluations =
            appliedNodes world.evaluations ++ appliedNodes
              (world.since (world.step (.handleNode conversationId node nowMs fuel))) := by
        rw [← appliedNodes_append, World.since, List.prefix_iff_eq_append.mp hadvances.evaluated]
      refine ⟨hfollow.once.step hcalm, fun nodeHash => ?_, ?_, ?_⟩
      · rw [hadvances.verified, hfollow.verified, hnodes]
        simp only [List.mem_append, or_and_right, exists_or]
        exact or_comm
      · rw [hadvances.heads, hfollow.heads, hnodes, List.foldl_append]
      · obtain ⟨emitted, hemitted, hwritten⟩ := hadvances.written
        rw [hemitted, World.verifiedWrites_append, hfollow.written, hwritten, hnodes]
  | authorNode | rotateConversationKey | senderRekey | storeWire => cases hcalm

/-- In every run of calls that handle nodes, whose evaluations are calm and which verifies no
node after a node of its own track that has it as a parent: the verified nodes are those that
were written as verified, the heads of every track are its frontier, every node of the track
leads to a head along its children, and no head is an ancestor of another. -/
theorem run_headsFrontier (engine : Engine) (commands : List Command)
    (hcalm : RunMeets World.step World.CalmArrival (World.new engine) commands)
    (horder : (World.verifiedWrites ((World.new engine).run commands).emitted).Pairwise Precedes)
    (conversationId : ConversationId) (isAdmin : Bool) :
    (∀ nodeHash, ((World.new engine).run commands).store.isVerified nodeHash = true ↔
      ∃ entry ∈ World.verifiedWrites ((World.new engine).run commands).emitted,
        nodeHash = hash entry.2) ∧
    {head | head ∈ ((World.new engine).run commands).store.trackHeads conversationId isAdmin} =
      History.frontier hash MerkleNode.parents
        (((World.new engine).run commands).verifiedTrack conversationId isAdmin) ∧
    (∀ node ∈ ((World.new engine).run commands).verifiedTrack conversationId isAdmin,
      ∃ head ∈ ((World.new engine).run commands).store.trackHeads conversationId isAdmin,
        ReflTransGen (((World.new engine).run commands).VerifiedParent conversationId isAdmin)
          (hash node) head) ∧
    ∀ head ∈ ((World.new engine).run commands).store.trackHeads conversationId isAdmin,
      ∀ other ∈ ((World.new engine).run commands).store.trackHeads conversationId isAdmin,
        ReflTransGen (((World.new engine).run commands).VerifiedParent conversationId isAdmin)
          head other → other = head := by
  have hinit : (World.new engine).HeadsFollow := by
    refine ⟨⟨List.nodup_nil, fun _ hmem => absurd hmem List.not_mem_nil,
      fun _ hmem => absurd hmem List.not_mem_nil⟩, fun nodeHash => ?_, ?_, rfl⟩
    · simp [World.new, appliedNodes, InMemoryStore.isVerified, InMemoryStore.new]
    · funext conversationId isAdmin
      cases isAdmin <;> rfl
  -- The heads follow the writes along the run; on an ordered track they are its frontier.
  have hfollow : ((World.new engine).run commands).HeadsFollow :=
    hcalm.invariant World.HeadsFollow (fun _ _ hfollow => hfollow.step) hinit
  have hnodup : ((World.verifiedWrites ((World.new engine).run commands).emitted).map
      fun entry => hash entry.2).Nodup := by
    rw [hfollow.written]
    exact hfollow.once.nodup
  have hordered := trackNodes_ordered hnodup horder conversationId isAdmin
  have hheads : {head | head ∈ ((World.new engine).run commands).store.trackHeads conversationId
      isAdmin} = History.frontier hash MerkleNode.parents
        (((World.new engine).run commands).verifiedTrack conversationId isAdmin) := by
    rw [World.verifiedTrack, ← History.foldl_advance hordered, hfollow.heads, enterHeads_advance,
      ← hfollow.written]
    congr 1
    exact Set.eq_empty_iff_forall_notMem.mpr fun _ => List.not_mem_nil
  have hmem : ∀ head, head ∈ ((World.new engine).run commands).store.trackHeads conversationId
      isAdmin ↔ head ∈ History.frontier hash MerkleNode.parents
        (((World.new engine).run commands).verifiedTrack conversationId isAdmin) :=
    fun head => Set.ext_iff.mp hheads head
  refine ⟨?_, hheads, fun node hnode => ?_, fun head hhead other _ hpath => ?_⟩
  · rw [hfollow.written]
    exact hfollow.verified
  · obtain ⟨head, hfrontier, hpath⟩ := History.exists_head hordered hnode
    exact ⟨head, (hmem head).mpr hfrontier, hpath⟩
  · exact History.eq_of_frontier ((hmem head).mp hhead) hpath

end Heads

namespace Heads

/-! ## A node that is verified after its child -/

open Reference OnceApplied

/-- A stranger revokes a device. -/
def stray : MerkleNode :=
  sign
    { parents := [hash genesis]
      authorPk := ⟨61⟩
      senderPk := ⟨60⟩
      sequenceNumber := 1
      topologicalRank := 1
      networkTimestamp := 1000
      content := .control (.revokeDevice ⟨99⟩ "")
      metadata := []
      authentication := .ephemeralSignature ⟨0⟩
      powNonce := 0 }

/-- The founder authorizes a device, with the stranger's node as the parent. -/
def late : MerkleNode := sign { authorization (hash stray) with topologicalRank := 2 }

/-- The heads after an authorization that follows its parent. -/
theorem run_headsFrontier_authorization :
    {head | head ∈ (observer.run [arrival genesis,
        arrival (authorization (hash genesis))]).store.trackHeads room true} =
      History.frontier hash MerkleNode.parents ((observer.run [arrival genesis,
        arrival (authorization (hash genesis))]).verifiedTrack room true) := by
  have hgenesis : ∀ evaluation ∈ observer.since (observer.step (arrival genesis)),
      evaluation.calm = true := by decide +kernel
  have hauthorization : ∀ evaluation ∈ (observer.step (arrival genesis)).since
      ((observer.step (arrival genesis)).step (arrival (authorization (hash genesis)))),
      evaluation.calm = true := by decide +kernel
  have hmeets : RunMeets World.step World.CalmArrival observer
      [arrival genesis, arrival (authorization (hash genesis))] :=
    ⟨hgenesis, hauthorization, trivial⟩
  have horder : (World.verifiedWrites (observer.run [arrival genesis,
      arrival (authorization (hash genesis))]).emitted).Pairwise Precedes := by decide +kernel
  exact (run_headsFrontier observer.engine [arrival genesis,
    arrival (authorization (hash genesis))] hmeets horder room true).2.1

/-- The stranger's node waits for its voucher, the authorization does not wait for its parent;
verified after its child, the stranger's node is a head. -/
theorem stray_head :
    {head | head ∈ (observer.run [arrival genesis, arrival stray,
        arrival late]).store.trackHeads room true} ≠
      History.frontier hash MerkleNode.parents ((observer.run [arrival genesis, arrival stray,
        arrival late]).verifiedTrack room true) := by
  intro hsame
  have hhead : hash stray ∈ (observer.run [arrival genesis, arrival stray,
      arrival late]).store.trackHeads room true := by decide +kernel
  have hchild : late ∈ (observer.run [arrival genesis, arrival stray,
      arrival late]).verifiedTrack room true := by decide +kernel
  have hother : hash late ≠ hash stray := by decide +kernel
  have hparent : hash stray ∈ late.parents := by decide +kernel
  exact ((Set.ext_iff.mp hsame (hash stray)).mp hhead).2 late hchild hother hparent

end Heads

end MerkleTox.Core
