import MerkleTox.Core.Atomicity

/-! # Traces of the engine

What a call does to the overlay and what it tells the store to write, as a list of moves in
the order in which they happen. Every function of the engine leaves a trace; what holds of
the single moves holds of whole calls and never unfolds the functions themselves.

Two things set a call apart from its moves: a failed part of a call loses the effects it had
collected while its changes to the engine stay, and a rotation of the conversation key drops
the overlay in the middle of the call.
-/

namespace MerkleTox.Core

open Library Proto

/-- Effects that write neither nodes nor wire forms nor heads. -/
def Effect.isPrivate : Effect → Bool
  | .writeStore .. | .writeWireNode .. | .deleteWireNode .. | .updateHeads .. => false
  | _ => true

/-- The device that the engine was made for. -/
def Engine.device (engine : Engine) := (engine.selfPk, engine.selfLogicalPk, engine.selfSk)

/-- What a quiet change leaves alone: the cache, the own nodes, the pairs of soft anchors and the
device. -/
def Engine.settled (engine : Engine) :=
  (engine.pendingCache, engine.authored, engine.softAnchorDedup, engine.device)

section

variable {engine engine' : Engine} (hsettled : engine'.settled = engine.settled)
include hsettled

theorem Engine.pendingCache_of_settled : engine'.pendingCache = engine.pendingCache :=
  congrArg Prod.fst hsettled

theorem Engine.authored_of_settled : engine'.authored = engine.authored :=
  congrArg (fun settled => settled.2.1) hsettled

theorem Engine.device_of_settled : engine'.device = engine.device :=
  congrArg (fun settled => settled.2.2.2) hsettled

end

/-- The nodes that a call evaluates, and the contents of those that it authors; to distribute
keys is always allowed. -/
structure Sources where
  evaluated : ConversationId → MerkleNode → Prop
  authored : Content → Prop
  keys : ∀ content, content.isKeyWrap = true ∨ content.isSenderKeyDistribution = true →
    authored content

/-- A call that evaluates no node. -/
def Sources.calls : Sources := ⟨fun _ _ => False, fun _ => True, fun _ _ => trivial⟩

/-- A call that evaluates one node. -/
def Sources.evaluation (node : MerkleNode) : Sources :=
  ⟨fun _ held => held = node, fun _ => True, fun _ _ => trivial⟩

section Moves

variable [Primitives]

/-- Parents and rank of an own node come from the overlay it is drafted on. -/
structure Drafted (overlay : Overlay) (conversationId : ConversationId) (nowMs : Int)
    (node : MerkleNode) : Prop where
  parents : node.parents = Engine.ownParents overlay conversationId node.content
  rank : node.topologicalRank =
    if node.parents.isEmpty then 0
    else wrap64 ((node.parents.filterMap overlay.getRank).foldl max 0 + 1)
  timestamp : node.networkTimestamp = nowMs

/-- One move of a call: a change of the overlay, with the effects that go with it. The nodes
come from `origin`. -/
inductive Move (store : InMemoryStore) (nowMs : Int)
    (origin : Sources) : Engine → List Effect → Engine → Prop
  | quiet {engine engine' : Engine} {effects : List Effect}
      (hsettled : engine'.settled = engine.settled)
      (hprivate : ∀ effect ∈ effects, effect.isPrivate = true) :
      Move store nowMs origin engine effects engine'
  | learn (engine : Engine) (known : AssocMap NodeHash Nat) :
      Move store nowMs origin engine []
        { engine with pendingCache := { engine.pendingCache with adminDistances := known } }
  | evaluated (engine : Engine) (conversationId : ConversationId) (node : MerkleNode)
      (verified : Bool) (horigin : origin.evaluated conversationId node) :
      Move store nowMs origin engine [.writeStore conversationId node verified]
        { engine with pendingCache := engine.pendingCache.putNode conversationId node verified }
  | accept (engine : Engine) (conversationId : ConversationId) (node : MerkleNode)
      (pairs : AssocMap ConversationId (List (PhysicalDevicePk × NodeHash)))
      (horigin : origin.evaluated conversationId node) :
      Move store nowMs origin engine [] { engine with softAnchorDedup := pairs }
  | own (engine : Engine) (conversationId : ConversationId) (node : MerkleNode)
      (hdraft : Drafted (engine.overlay store) conversationId nowMs node)
      (hcontent : origin.authored node.content) (hsender : node.senderPk = engine.selfPk) :
      Move store nowMs origin engine [.writeStore conversationId node true]
        (engine.noteAuthored conversationId node)
  | ownWire (engine : Engine) (conversationId : ConversationId) (node : MerkleNode)
      (wire : WireNode) (hauthored : (conversationId, node) ∈ engine.authored)
      (hcached : engine.pendingCache.nodes.get (hash node) = some node) :
      Move store nowMs origin engine [.writeWireNode conversationId (hash node) wire]
        { engine with
            pendingCache := { engine.pendingCache with
              wireNodes := engine.pendingCache.wireNodes.insert (hash node)
                (conversationId, wire) } }
  | recheck (engine : Engine) (conversationId : ConversationId) (node : MerkleNode)
      (hstored : node ∈ store.getVerifiedNodesByType node.nodeType) :
      Move store nowMs origin engine []
        { engine with
            pendingCache := engine.pendingCache.markVerified conversationId (hash node) }
  | invalidate (engine : Engine) (conversationId : ConversationId) (node : MerkleNode)
      (hstored : node ∈ store.getVerifiedNodesByType node.nodeType) :
      Move store nowMs origin engine
        [.writeStore conversationId node false,
          .emitEvent (.nodeInvalidated conversationId (hash node))] engine
  | heads (engine : Engine) (conversationId : ConversationId) (node : MerkleNode) :
      Move store nowMs origin engine (engine.updateHeads store conversationId node).1
        (engine.updateHeads store conversationId node).2

/-- Every wire form among the effects goes with its own node. -/
def Paired (effects : List Effect) : Prop :=
  ∀ conversationId nodeHash wire, .writeWireNode conversationId nodeHash wire ∈ effects →
    ∃ node, .writeStore conversationId node true ∈ effects ∧ hash node = nodeHash

theorem Paired.of_unwired {effects : List Effect}
    (hunwired : ∀ conversationId nodeHash wire,
      .writeWireNode conversationId nodeHash wire ∉ effects) : Paired effects :=
  fun _ _ _ hmem => absurd hmem (hunwired _ _ _)

theorem Paired.nil : Paired [] := .of_unwired fun _ _ _ => List.not_mem_nil

theorem Paired.of_private {effects : List Effect}
    (hprivate : ∀ effect ∈ effects, effect.isPrivate = true) : Paired effects :=
  .of_unwired fun _ _ _ hmem => nomatch hprivate _ hmem

theorem Paired.append {first second : List Effect} (hfirst : Paired first)
    (hsecond : Paired second) : Paired (first ++ second) := by
  intro conversationId nodeHash wire hmem
  rcases List.mem_append.mp hmem with hmem | hmem
  · obtain ⟨node, hwritten, hnode⟩ := hfirst _ _ _ hmem
    exact ⟨node, List.mem_append_left _ hwritten, hnode⟩
  · obtain ⟨node, hwritten, hnode⟩ := hsecond _ _ _ hmem
    exact ⟨node, List.mem_append_right _ hwritten, hnode⟩

/-- The moves of a call with the effects that it keeps: wire forms only with their nodes. -/
inductive Trace (store : InMemoryStore) (nowMs : Int)
    (origin : Sources) :
    Engine → List Effect → Engine → Prop
  | refl (engine : Engine) : Trace store nowMs origin engine [] engine
  | keep {before middle after : Engine} {effects kept : List Effect}
      (htrace : Trace store nowMs origin before effects middle)
      (hmove : Move store nowMs origin middle kept after) (hpaired : Paired (effects ++ kept)) :
      Trace store nowMs origin before (effects ++ kept) after
  | lose {before middle after : Engine} {effects lost : List Effect}
      (htrace : Trace store nowMs origin before effects middle)
      (hmove : Move store nowMs origin middle lost after) :
      Trace store nowMs origin before effects after
  | clear {before middle : Engine} {effects : List Effect}
      (htrace : Trace store nowMs origin before effects middle) :
      Trace store nowMs origin before effects middle.clearPending

namespace Trace

variable {store : InMemoryStore} {nowMs : Int} {origin : Sources}
variable {before middle after : Engine} {first second effects : List Effect}

theorem paired (htrace : Trace store nowMs origin before effects after) : Paired effects := by
  induction htrace with
  | refl => exact .nil
  | keep _ _ hpaired _ => exact hpaired
  | lose _ _ ih => exact ih
  | clear _ ih => exact ih

theorem trans (hfirst : Trace store nowMs origin before first middle)
    (hsecond : Trace store nowMs origin middle second after) :
    Trace store nowMs origin before (first ++ second) after := by
  induction hsecond with
  | refl =>
      rw [List.append_nil]
      exact hfirst
  | keep _ hmove hpaired ih =>
      have hwhole := hfirst.paired.append hpaired
      rw [← List.append_assoc] at hwhole ⊢
      exact .keep ih hmove hwhole
  | lose _ hmove ih => exact .lose ih hmove
  | clear _ ih => exact .clear ih

/-- A part of a call that leaves no effects. -/
theorem trans_nil (hfirst : Trace store nowMs origin before first middle)
    (hsecond : Trace store nowMs origin middle [] after) :
    Trace store nowMs origin before first after := by
  rw [← List.append_nil first]
  exact hfirst.trans hsecond

theorem nil_trans (hfirst : Trace store nowMs origin before [] middle)
    (hsecond : Trace store nowMs origin middle second after) :
    Trace store nowMs origin before second after :=
  hfirst.trans hsecond

theorem single (hmove : Move store nowMs origin before effects after)
    (hpaired : Paired effects) : Trace store nowMs origin before effects after :=
  .keep (.refl before) hmove hpaired

/-- A change that concerns neither the overlay nor the authored nodes. -/
theorem quiet (hsettled : after.settled = before.settled)
    (hprivate : ∀ effect ∈ effects, effect.isPrivate = true) :
    Trace store nowMs origin before effects after :=
  .single (.quiet hsettled hprivate) (.of_private hprivate)

theorem silent (hsettled : after.settled = before.settled) :
    Trace store nowMs origin before [] after :=
  .quiet hsettled fun _ hmem => absurd hmem List.not_mem_nil

/-- The effects of a trace may be lost. -/
theorem lost (htrace : Trace store nowMs origin before effects after) :
    Trace store nowMs origin before [] after := by
  induction htrace with
  | refl => exact .refl _
  | keep _ hmove _ ih => exact .lose ih hmove
  | lose _ hmove ih => exact .lose ih hmove
  | clear _ ih => exact .clear ih

/-- An effect that concerns neither nodes nor heads stands in front of the others. -/
theorem behind {effect : Effect} (hprivate : effect.isPrivate = true)
    (htrace : Trace store nowMs origin before effects after) :
    Trace store nowMs origin before (effect :: effects) after :=
  have hfirst : Trace store nowMs origin before [effect] before :=
    .quiet rfl fun _ hmem => by
      rw [List.mem_singleton.mp hmem]
      exact hprivate
  hfirst.trans htrace

theorem device_eq (htrace : Trace store nowMs origin before effects after) :
    after.device = before.device := by
  have hmove : ∀ {before after : Engine} {effects : List Effect},
      Move store nowMs origin before effects after → after.device = before.device := by
    intro before after effects hmove
    cases hmove with
    | quiet hsettled => exact Engine.device_of_settled hsettled
    | heads =>
        unfold Engine.updateHeads
        simp only
        split <;> rfl
    | _ => rfl
  induction htrace with
  | refl => rfl
  | keep _ hlast _ ih | lose _ hlast ih => exact (hmove hlast).trans ih
  | clear _ ih => exact ih

end Trace

/-- The trace of a call that may fail: a failure loses the effects. -/
def Outcome.Traces (outcome : Outcome) (store : InMemoryStore) (nowMs : Int)
    (origin : Sources) (before : Engine) : Prop :=
  match outcome with
  | (.ok effects, after) => Trace store nowMs origin before effects after
  | (.error _, after) => Trace store nowMs origin before [] after

namespace Outcome.Traces

variable {outcome : Outcome} {store : InMemoryStore} {nowMs : Int}
variable {origin : Sources} {before after : Engine}

theorem ok {effects : List Effect} (htraces : outcome.Traces store nowMs origin before)
    (heq : outcome = (.ok effects, after)) : Trace store nowMs origin before effects after := by
  rw [heq] at htraces
  exact htraces

theorem error {error : MerkleToxError} (htraces : outcome.Traces store nowMs origin before)
    (heq : outcome = (.error error, after)) : Trace store nowMs origin before [] after := by
  rw [heq] at htraces
  exact htraces

/-- A call after moves that leave no effects. -/
theorem after_silent {middle : Engine} (hfirst : Trace store nowMs origin before [] middle)
    (htraces : outcome.Traces store nowMs origin middle) :
    outcome.Traces store nowMs origin before := by
  unfold Outcome.Traces at htraces ⊢
  split at htraces <;> exact hfirst.nil_trans htraces

end Outcome.Traces

namespace Engine

variable {origin : Sources}
variable (engine : Engine) (store : InMemoryStore) (conversationId : ConversationId)
variable (node : MerkleNode) (nowMs : Int)

theorem modifyEstablished_trace (f : Established → Established) :
    Trace store nowMs origin engine [] (engine.modifyEstablished conversationId f) := by
  unfold modifyEstablished
  split <;> exact .silent rfl

theorem checkStructure_trace :
    Trace store nowMs origin engine [] (engine.checkStructure store node).2 := by
  unfold checkStructure
  simp only
  split <;> exact .single (.learn engine _) .nil

omit [Primitives] in
theorem mem_getVerifiedNodesByType {node : MerkleNode} {nodeType : NodeType}
    {store : InMemoryStore} (hmem : node ∈ store.getVerifiedNodesByType nodeType) :
    node ∈ store.getVerifiedNodesByType node.nodeType := by
  have hkept := hmem
  unfold InMemoryStore.getVerifiedNodesByType sortByKey at hkept
  rw [(List.perm_insertionSort _ _).mem_iff, List.mem_map] at hkept
  obtain ⟨stored, hstored, rfl⟩ := hkept
  rw [List.mem_filter, Bool.and_eq_true, decide_eq_true_iff] at hstored
  rw [hstored.2.2]
  exact hmem

/-- Re-checking a stored node marks it again at most. -/
theorem verifyNode_trace (hstored : node ∈ store.getVerifiedNodesByType node.nodeType) :
    Trace store nowMs origin engine [] (engine.verifyNode store conversationId node nowMs).2 := by
  have hstructure : Trace store nowMs origin engine [] _ :=
    engine.checkStructure_trace store node nowMs
  unfold verifyNode
  split
  next error checked heq =>
    rw [heq] at hstructure
    exact hstructure
  next valid checked heq =>
    rw [heq] at hstructure
    have hauthorized : Trace store nowMs origin checked []
        (checked.authorization store conversationId node).2.2 := .silent rfl
    refine hstructure.nil_trans (hauthorized.nil_trans ?_)
    simp only
    split
    · exact .single (.recheck _ conversationId node hstored) .nil
    · exact .refl _

theorem revalidateNodes_trace {nodes : List MerkleNode}
    (hstored : ∀ node ∈ nodes, node ∈ store.getVerifiedNodesByType node.nodeType) :
    Trace store nowMs origin engine (engine.revalidateNodes store conversationId nowMs nodes).1
      (engine.revalidateNodes store conversationId nowMs nodes).2 := by
  induction nodes generalizing engine with
  | nil => exact .refl engine
  | cons node rest ih =>
      have hnode := hstored node List.mem_cons_self
      have hrest := fun other hmem => hstored other (List.mem_cons_of_mem _ hmem)
      have hverify : Trace store nowMs origin engine [] _ :=
        engine.verifyNode_trace store conversationId node nowMs hnode
      unfold revalidateNodes
      split
      next checked heq =>
        rw [heq] at hverify
        exact hverify.nil_trans (ih checked hrest)
      next checked heq =>
        rw [heq] at hverify
        refine hverify.nil_trans ?_
        refine .trans (.single (.invalidate checked conversationId node hnode) ?_)
          (ih checked hrest)
        exact .of_unwired fun _ _ _ hmem => by simp at hmem

theorem revalidateAllVerifiedNodes_trace :
    Trace store nowMs origin engine
      (engine.revalidateAllVerifiedNodes store conversationId nowMs).1
      (engine.revalidateAllVerifiedNodes store conversationId nowMs).2 := by
  refine engine.revalidateNodes_trace store conversationId nowMs fun node hmem => ?_
  unfold sortByKey at hmem
  rw [(List.perm_insertionSort _ _).mem_iff, List.mem_append] at hmem
  rcases hmem with hmem | hmem <;> exact mem_getVerifiedNodesByType hmem

/-! ## Side effects -/

section Rotating

variable {rotate : Rotation}
variable (hrotate : ∀ engine flag, (rotate engine flag).Traces store nowMs origin engine)

include hrotate

theorem tryRotate_trace (postRevocation : Bool) :
    Trace store nowMs origin engine (engine.tryRotate rotate postRevocation).1
      (engine.tryRotate rotate postRevocation).2 := by
  have hrun := hrotate engine postRevocation
  unfold tryRotate
  split
  next heq => exact hrun.ok heq
  next heq => exact hrun.error heq

theorem applyRevoke_trace (ctx : CausalContext) (target : PhysicalDevicePk) :
    Trace store nowMs origin engine
      (engine.applyRevoke rotate ctx conversationId node target nowMs).1
      (engine.applyRevoke rotate ctx conversationId node target nowMs).2 := by
  unfold applyRevoke
  simp only
  split
  · refine .nil_trans ?_ (tryRotate_trace _ store nowMs hrotate true)
    exact .silent rfl
  · exact .silent rfl

theorem applyHandshakePulse_trace (ctx : CausalContext) :
    Trace store nowMs origin engine
      (engine.applyHandshakePulse rotate ctx conversationId node nowMs).1
      (engine.applyHandshakePulse rotate ctx conversationId node nowMs).2 := by
  unfold applyHandshakePulse
  simp only
  split
  · refine .nil_trans ?_ (tryRotate_trace _ store nowMs hrotate false)
    exact .silent rfl
  · exact .silent rfl

theorem applyAction_trace (ctx : CausalContext) :
    (engine.applyAction rotate ctx conversationId node nowMs).Traces store nowMs origin engine := by
  unfold applyAction
  split
  next =>
    have hgenesis : ∀ creatorPk createdAt flags, Trace store nowMs origin engine []
        (engine.applyGenesis conversationId node creatorPk createdAt flags) := by
      intro creatorPk createdAt flags
      unfold applyGenesis
      refine .nil_trans ?_ (modifyEstablished_trace _ store conversationId nowMs _)
      exact .silent rfl
    exact hgenesis _ _ _
  next =>
    unfold applyAuthorize
    simp only
    split
    · exact .silent rfl
    · split <;> exact .silent rfl
  next => exact applyRevoke_trace engine store conversationId node nowMs hrotate ctx _
  next => exact .silent rfl
  next => exact .silent rfl
  next => exact .silent rfl
  next => exact .silent rfl
  next =>
    have hanchor : ∀ data, Trace store nowMs origin engine []
        (engine.applyAnchorSnapshot conversationId node data nowMs) := by
      intro data
      unfold applyAnchorSnapshot
      simp only
      split <;> exact .silent rfl
    exact hanchor _
  next => exact .silent rfl
  next => exact applyHandshakePulse_trace engine store conversationId node nowMs hrotate ctx
  next =>
    have hdistribution : ∀ signingPk, Trace store nowMs origin engine []
        (engine.applyDistribution conversationId node signingPk) := by
      intro signingPk
      unfold applyDistribution
      refine .nil_trans ?_ (modifyEstablished_trace _ store conversationId nowMs _)
      split <;> exact .silent rfl
    exact hdistribution _
  next => exact .refl engine

end Rotating

theorem advanceEstablished_private (em : Established) :
    ∀ effect ∈ (advanceEstablished em conversationId node nowMs).1, effect.isPrivate = true := by
  unfold advanceEstablished
  split
  · exact fun effect hmem => absurd hmem List.not_mem_nil
  · intro effect hmem
    simp only [List.mem_cons, List.mem_map] at hmem
    rcases hmem with rfl | ⟨previous, -, rfl⟩ <;> rfl

theorem advanceRatchet_trace :
    Trace store nowMs origin engine (engine.advanceRatchet conversationId node nowMs).1
      (engine.advanceRatchet conversationId node nowMs).2 := by
  unfold advanceRatchet
  split
  · exact .refl engine
  · split
    · exact .silent rfl
    · exact .quiet rfl (advanceEstablished_private conversationId node nowMs _)

theorem updateHeads_unwired : Paired (engine.updateHeads store conversationId node).1 := by
  unfold updateHeads
  simp only
  split <;> exact .of_unwired fun _ _ _ hmem => by simp at hmem

theorem applySideEffects_trace {rotate : Rotation}
    (hrotate : ∀ engine flag, (rotate engine flag).Traces store nowMs origin engine) :
    (engine.applySideEffects rotate store conversationId node nowMs).Traces store nowMs origin
      engine := by
  have hcontext : Trace store nowMs origin engine [] (engine.causalContext store node).2 :=
    .silent rfl
  have haction := applyAction_trace (engine.causalContext store node).2 store conversationId node
    nowMs hrotate (engine.causalContext store node).1
  unfold applySideEffects
  simp only
  split
  next heq => exact hcontext.nil_trans (haction.error heq)
  next heq =>
    refine hcontext.nil_trans ?_
    refine ((haction.ok heq).trans (advanceRatchet_trace _ store conversationId node nowMs)).trans ?_
    exact .single (.heads _ conversationId node) (updateHeads_unwired _ _ _ _)

/-! ## Authoring -/

theorem contentPackKeys_settled :
    (engine.contentPackKeys conversationId node nowMs).2.settled = engine.settled := by
  unfold contentPackKeys
  split
  · rfl
  · split
    · split <;> rfl
    · split <;> rfl

theorem ensureSigningKey_settled (epoch : Nat) :
    (engine.ensureSigningKey epoch).2.settled = engine.settled := by
  unfold ensureSigningKey
  split <;> rfl

variable (content : Content)

omit [Primitives] in
theorem countMessage_settled :
    (engine.countMessage conversationId content).settled = engine.settled := by
  unfold countMessage
  split
  · rfl
  · unfold modifyEstablished
    split <;> rfl

/-- Signing leaves the overlay alone. -/
theorem signNode_settled (useEpoch : Option Nat) :
    (engine.signNode conversationId node useEpoch nowMs).2.settled = engine.settled := by
  have hcount := engine.countMessage_settled conversationId node.content
  have hpack := contentPackKeys_settled (engine.countMessage conversationId node.content)
    conversationId node nowMs
  unfold signNode
  simp only
  split
  · split <;> rfl
  · split
    · exact engine.ensureSigningKey_settled _
    · exact (ensureSigningKey_settled _ _).trans (hpack.trans hcount)

/-- What signing leaves of a draft. -/
theorem signNode_draft {draft : MerkleNode} {useEpoch : Option Nat} {wire : Option WireNode}
    {signed : Engine} (heq : engine.signNode conversationId draft useEpoch nowMs =
      (.ok (node, wire), signed)) :
    ∃ authentication, node = { draft with authentication := authentication } := by
  unfold signNode at heq
  simp only at heq
  split at heq
  · split at heq
    · cases heq
    · cases heq
      exact ⟨_, rfl⟩
  · split at heq
    · cases heq
      exact ⟨_, rfl⟩
    · cases heq
      exact ⟨_, rfl⟩

theorem packLate_settled :
    (engine.packLate conversationId node nowMs).2.settled = engine.settled := by
  unfold packLate
  split
  · rfl
  · split
    · rfl
    · exact engine.contentPackKeys_settled conversationId node nowMs

theorem putOwn_trace (wire : Option WireNode)
    (hdraft : Drafted (engine.overlay store) conversationId nowMs node)
    (hcontent : origin.authored node.content) (hsender : node.senderPk = engine.selfPk) :
    Trace store nowMs origin engine
      ((.writeStore conversationId node true) ::
        ((engine.putOwn conversationId node wire nowMs).1.map
          (.writeWireNode conversationId (hash node))).toList)
      (engine.putOwn conversationId node wire nowMs).2 := by
  have hown : Trace store nowMs origin engine [.writeStore conversationId node true]
      (engine.noteAuthored conversationId node) :=
    .single (.own engine conversationId node hdraft hcontent hsender)
      (.of_unwired fun _ _ _ hmem => by simp at hmem)
  have hmem : (conversationId, node) ∈ (engine.noteAuthored conversationId node).authored :=
    List.mem_cons_self
  have hcached : (engine.noteAuthored conversationId node).pendingCache.nodes.get (hash node) =
      some node := AssocMap.get_insert_self _ _ _
  have hpaired : ∀ wire : WireNode, Paired ([.writeStore conversationId node true] ++
      [.writeWireNode conversationId (hash node) wire]) := by
    intro wire _ _ _ hmem
    simp only [List.cons_append, List.nil_append, List.mem_cons, reduceCtorEq, false_or,
      Effect.writeWireNode.injEq, List.not_mem_nil, or_false] at hmem
    obtain ⟨rfl, rfl, -⟩ := hmem
    exact ⟨node, List.mem_cons_self, rfl⟩
  unfold putOwn
  cases wire with
  | some wire =>
      exact .keep hown (.ownWire _ conversationId node wire hmem hcached) (hpaired wire)
  | none =>
      have hpack := packLate_settled (engine.noteAuthored conversationId node) conversationId node
        nowMs
      have hlate : Trace store nowMs origin engine [.writeStore conversationId node true]
          ((engine.noteAuthored conversationId node).packLate conversationId node nowMs).2 :=
        hown.trans_nil (.silent hpack)
      simp only
      split
      next heq => exact hlate
      next wire heq =>
        refine .keep hlate (.ownWire _ conversationId node wire ?_ ?_) (hpaired wire)
        · rw [authored_of_settled hpack]
          exact hmem
        · rw [pendingCache_of_settled hpack]
          exact hcached

/-- The effects of an own node, as they are collected behind its wire form. -/
theorem ownEffects_trace (after metadata : Engine) (wire : Option WireNode)
    (hput : Trace store nowMs origin engine
      ((.writeStore conversationId node true) ::
        (wire.map (.writeWireNode conversationId (hash node))).toList) after) :
    Trace store nowMs origin engine (metadata.ownEffects conversationId node wire) after := by
  unfold ownEffects
  rw [List.append_assoc]
  refine .trans ?_ hput
  split
  · split
    · exact .refl engine
    · refine .quiet rfl fun effect hmem => ?_
      rw [List.mem_singleton.mp hmem]
      rfl
  · exact .refl engine

theorem authorNodeInternal_trace {rotate : Rotation} (metadata : Bytes)
    (useEpoch : Option Nat) (hcontent : origin.authored content)
    (hrotate : ∀ engine flag, (rotate engine flag).Traces store nowMs origin engine) :
    (engine.authorNodeInternal rotate store conversationId content metadata useEpoch
      nowMs).Traces store nowMs origin engine := by
  have hsigned := engine.signNode_settled conversationId
    (engine.draftNode store conversationId content metadata useEpoch nowMs) nowMs useEpoch
  unfold authorNodeInternal
  simp only
  split
  next heq =>
    rw [heq] at hsigned
    exact .silent hsigned
  next node wire signed heq =>
    rw [heq] at hsigned
    obtain ⟨authentication, hnode⟩ := engine.signNode_draft conversationId node nowMs heq
    -- Signing changes the authentication only, so the node is still the draft over this overlay.
    have hdraft : Drafted (signed.overlay store) conversationId nowMs node := by
      have hoverlay : signed.overlay store = engine.overlay store := by
        unfold overlay
        rw [pendingCache_of_settled hsigned]
      rw [hoverlay, hnode]
      exact ⟨rfl, rfl, rfl⟩
    have hdrafted : origin.authored node.content := by
      rw [hnode]
      exact hcontent
    have hsender : node.senderPk = signed.selfPk := by
      have hself : signed.selfPk = engine.selfPk := congrArg Prod.fst (device_of_settled hsigned)
      rw [hself, hnode]
      rfl
    refine .after_silent (.silent hsigned) ?_
    have hwritten : Trace store nowMs origin signed
        ((signed.putOwn conversationId node wire nowMs).2.ownEffects conversationId node
          (signed.putOwn conversationId node wire nowMs).1)
        (signed.putOwn conversationId node wire nowMs).2 :=
      ownEffects_trace signed store conversationId node nowMs _ _ _
        (putOwn_trace signed store conversationId node nowMs wire hdraft hdrafted hsender)
    have hside := applySideEffects_trace (signed.putOwn conversationId node wire nowMs).2 store
      conversationId node nowMs hrotate
    split
    next heq => exact hwritten.lost.nil_trans (hside.error heq)
    next acted heq =>
      refine ((hwritten.trans (hside.ok heq)).trans ?_).trans (.quiet rfl fun effect hmem => ?_)
      · split
        · exact acted.revalidateAllVerifiedNodes_trace store conversationId nowMs
        · exact .refl acted
      · rw [List.mem_singleton.mp hmem]
        rfl

omit node in
/-- Authoring leaves traces. -/
theorem trace_rule :
    AuthoringRule store conversationId nowMs (Trace store nowMs origin) origin.authored where
  refl := .refl
  trans := Trace.trans
  lost := Trace.lost
  drawn := by
    rintro before after ⟨rng, keys, announcements, rfl⟩
    exact .silent rfl
  rekeyed engine _ _ := engine.modifyEstablished_trace store conversationId nowMs _
  listed _ _ _ := .silent rfl
  keys := origin.keys
  author engine _ _ _ hcontent hrotate :=
    engine.authorNodeInternal_trace store conversationId nowMs _ _ _ hcontent hrotate
  cleared engine := .clear (.refl engine)
  installed engine kConv := by
    unfold installKey
    split <;> exact .silent rfl
  noted engine _ _ := .behind rfl (.refl engine)
  wanted engine := .behind rfl (.refl engine)

theorem rotateConversationKey_trace (postRevocation : Bool) :
    (rotateConversationKey store conversationId nowMs engine postRevocation).Traces store nowMs
      origin engine :=
  (trace_rule store conversationId nowMs).rotateConversationKey engine postRevocation

theorem senderRekey_trace :
    (engine.senderRekey store conversationId nowMs).Traces store nowMs origin engine :=
  have rule := trace_rule store conversationId nowMs
  rule.senderRekey rule.authorKeys engine

theorem refreshKeys_trace :
    (engine.refreshKeys store conversationId nowMs).Traces store nowMs origin engine :=
  (trace_rule store conversationId nowMs).refreshKeys engine

theorem shareJustInTime_trace :
    Trace store nowMs origin engine
      (engine.shareJustInTime store conversationId content nowMs).1
      (engine.shareJustInTime store conversationId content nowMs).2 :=
  have rule := trace_rule store conversationId nowMs
  rule.shareJustInTime rule.authorKeys engine content

theorem authorNodeOnce_trace (metadata : Bytes)
    (hcontent : origin.authored content) :
    (engine.authorNodeOnce store conversationId content metadata nowMs).Traces store nowMs origin
      engine :=
  (trace_rule store conversationId nowMs).authorNodeOnce engine content metadata hcontent

theorem authorNode_trace (metadata : Bytes)
    (hauthored : ∀ content, origin.authored content) :
    (engine.authorNode store conversationId content metadata nowMs).Traces store nowMs origin
      engine :=
  (trace_rule store conversationId nowMs).authorNode hauthored engine content metadata

/-! ## Evaluations -/

theorem vet_trace :
    Trace store nowMs origin engine [] (engine.vet store conversationId node nowMs).2 := by
  have hlooked : Looked engine (engine.vet store conversationId node nowMs).2 := vet_looked
  obtain ⟨distances, ancestors, searches, paths, equivocations, hlooked⟩ := hlooked
  rw [hlooked]
  exact (Trace.single (.learn engine distances) .nil).nil_trans (.silent rfl)

theorem usedKeys_private (assessment : Assessment) :
    ∀ effect ∈ (engine.usedKeys conversationId node assessment).effects,
      effect.isPrivate = true := by
  unfold usedKeys processKeys
  split
  · split
    next =>
      unfold processKeyWrap
      simp only
      split
      · exact fun _ hmem => absurd hmem List.not_mem_nil
      · intro effect hmem
        simp only [List.mem_cons, List.not_mem_nil, or_false] at hmem
        rcases hmem with rfl | rfl <;> rfl
    next => split <;> exact fun _ hmem => absurd hmem List.not_mem_nil
    next => split <;> exact fun _ hmem => absurd hmem List.not_mem_nil
    next => exact fun _ hmem => absurd hmem List.not_mem_nil
  · exact fun _ hmem => absurd hmem List.not_mem_nil

theorem settle_trace (verified authentic : Bool) :
    (engine.settle store conversationId node verified authentic nowMs).Traces store nowMs origin
      engine := by
  have hside : Outcome.Traces _ store nowMs origin engine :=
    engine.applySideEffects_trace store conversationId node nowMs fun engine flag =>
      engine.rotateConversationKey_trace store conversationId nowMs flag
  unfold settle
  split
  · split
    next heq => exact hside.error heq
    next acted heq =>
      split
      · exact (hside.ok heq).trans (acted.revalidateAllVerifiedNodes_trace store conversationId
          nowMs)
      · exact hside.ok heq
  · exact Trace.refl engine

theorem commit_trace {keyEffects : List Effect}
    (hprivate : ∀ effect ∈ keyEffects, effect.isPrivate = true) (opkIds : List NodeHash)
    (verified authentic : Bool) (horigin : origin.evaluated conversationId node) :
    Trace store nowMs origin engine
      (evaluationEffects (engine.commit store conversationId node keyEffects opkIds verified authentic
        nowMs).1)
      (engine.commit store conversationId node keyEffects opkIds verified authentic nowMs).2 := by
  unfold commit
  split
  next heq =>
    rw [storeNode_error heq]
    exact .refl engine
  next stored heq =>
    have hstored := storeNode_ok heq
    have hwritten : Trace store nowMs origin engine [.writeStore conversationId node verified]
        stored := by
      rw [hstored]
      refine .single (.evaluated engine conversationId node verified horigin) ?_
      exact .of_unwired fun _ _ _ hmem => by simp at hmem
    have hrecorded : Trace store nowMs origin stored []
        (stored.recordNode conversationId node opkIds verified authentic nowMs) := by
      obtain ⟨conversations, keys, seqs, hframe⟩ :=
        stored.recordNode_frame conversationId node nowMs opkIds verified authentic
      rw [hframe]
      exact .silent rfl
    have hkeys : Trace store nowMs origin engine keyEffects engine := .quiet rfl hprivate
    have hsettle : Outcome.Traces _ store nowMs origin
        (stored.recordNode conversationId node opkIds verified authentic nowMs) :=
      settle_trace _ store conversationId node nowMs verified authentic
    split
    next heq => exact (hwritten.lost.nil_trans hrecorded).nil_trans (hsettle.error heq)
    next heq =>
      exact ((hkeys.trans hwritten).trans_nil hrecorded).trans (hsettle.ok heq)

theorem conclude_trace (assessment : Assessment) (horigin : origin.evaluated conversationId node) :
    Trace store nowMs origin engine
      (evaluationEffects (engine.conclude store conversationId node assessment nowMs).1)
      (engine.conclude store conversationId node assessment nowMs).2 := by
  have hkeys : Trace store nowMs origin engine []
      (engine.usedKeys conversationId node assessment).engine := by
    obtain ⟨conversations, consumed, restored, hframe⟩ :=
      engine.usedKeys_frame conversationId node assessment
    rw [hframe]
    exact .silent rfl
  have hjudged : ∀ (engine : Engine) authentic, Trace store nowMs origin engine []
      (engine.judge conversationId node assessment authentic).2 := by
    intro engine authentic
    obtain ⟨manager, dedup, hframe⟩ :=
      engine.judge_frame conversationId node assessment authentic
    rw [hframe]
    have hidentity : Trace store nowMs origin engine [] (engine.withIdentity manager) :=
      .silent rfl
    exact hidentity.nil_trans (.single (.accept _ conversationId node dedup horigin) .nil)
  exact (hkeys.nil_trans (hjudged _ _)).nil_trans (commit_trace _ store conversationId node nowMs
    (engine.usedKeys_private conversationId node assessment) _ _ _ horigin)

theorem evaluateNode_trace (horigin : origin.evaluated conversationId node) :
    Trace store nowMs origin engine
      (evaluationEffects (engine.evaluateNode store conversationId node nowMs).1)
      (engine.evaluateNode store conversationId node nowMs).2 := by
  have hvet : Trace store nowMs origin engine [] _ :=
    engine.vet_trace store conversationId node nowMs
  unfold evaluateNode
  split
  next heq =>
    rw [heq] at hvet
    exact hvet
  next assessment vetted heq =>
    rw [heq] at hvet
    exact hvet.nil_trans (vetted.conclude_trace store conversationId node nowMs assessment horigin)

end Engine

end Moves

end MerkleTox.Core
