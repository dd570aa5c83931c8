import MerkleTox.Core.Applications

/-! # Side effects that are applied once

Along the handling of a node the overlay marks every node whose side effects have been
applied, and a marked node is not evaluated again. The marks last as long as an evaluation
verifies what it applies and takes back no other node.
-/

namespace MerkleTox.Core

open Library Proto

variable {node : MerkleNode}

section Applied

variable [Primitives]

/-- The evaluation applies something of its node. -/
def Evaluation.applies (evaluation : Evaluation) : Bool :=
  evaluation.before.applies evaluation.store evaluation.conversationId evaluation.node
    evaluation.nowMs

def Evaluation.calm (evaluation : Evaluation) : Bool :=
  evaluation.before.calm evaluation.store evaluation.conversationId evaluation.node
    evaluation.nowMs

/-- The nodes of the evaluations that apply something, in their order. -/
def appliedNodes (evaluations : List Evaluation) : List (ConversationId × MerkleNode) :=
  (evaluations.filter Evaluation.applies).map fun evaluation =>
    (evaluation.conversationId, evaluation.node)

/-- The hash of every node whose side effects an evaluation of the world has applied, as often
as that happened. -/
def World.appliedHashes (world : World) : List NodeHash :=
  (appliedNodes world.evaluations).map fun entry => hash entry.2

/-- The evaluations of a world that an earlier one has not. -/
def World.since (earlier later : World) : List Evaluation :=
  later.evaluations.drop earlier.evaluations.length

theorem appliedNodes_append (first second : List Evaluation) :
    appliedNodes (first ++ second) = appliedNodes first ++ appliedNodes second := by
  rw [appliedNodes, List.filter_append, List.map_append]
  rfl

namespace InMemoryStore

theorem applyEffects_single (store : InMemoryStore) (effect : Effect) :
    store.applyEffects [effect] = store.applyEffect effect := rfl

/-- What the effects do to marks and heads depends on marks and heads alone. -/
theorem applyEffects_congr {first second : InMemoryStore} (effects : List Effect)
    (hverified : first.isVerified = second.isVerified)
    (hheads : first.trackHeads = second.trackHeads) :
    (first.applyEffects effects).isVerified = (second.applyEffects effects).isVerified ∧
      (first.applyEffects effects).trackHeads = (second.applyEffects effects).trackHeads := by
  induction effects generalizing first second with
  | nil => exact ⟨hverified, hheads⟩
  | cons effect rest ih =>
      refine @ih (first.applyEffect effect) (second.applyEffect effect) ?_ ?_
      · funext nodeHash
        rw [applyEffect_isVerified, applyEffect_isVerified, hverified]
      · funext conversationId isAdmin
        rw [applyEffect_trackHeads, applyEffect_trackHeads, hheads]

end InMemoryStore

omit [Primitives] in
theorem World.trackHeads_congr {middle after : World}
    (hstore : after.store.trackHeads = middle.store.trackHeads)
    (hgrows : middle.engine.pendingCache.Grows after.engine.pendingCache) :
    after.overlay.trackHeads = middle.overlay.trackHeads := by
  funext conversationId isAdmin
  have hdefault := congrFun (congrFun hstore conversationId) isAdmin
  cases isAdmin with
  | true =>
      change (after.store.adminHeads.get conversationId).getD [] = _ at hdefault
      change (after.engine.pendingCache.adminHeads.get conversationId).getD
        ((after.store.adminHeads.get conversationId).getD []) = _
      rw [hgrows.adminHeads, hdefault]
      rfl
  | false =>
      change (after.store.heads.get conversationId).getD [] = _ at hdefault
      change (after.engine.pendingCache.heads.get conversationId).getD
        ((after.store.heads.get conversationId).getD []) = _
      rw [hgrows.heads, hdefault]
      rfl

/-! ## Along the handling of a node -/

/-- What the handling of a node keeps: the store that the effects lead to has marked the nodes
that were applied, once each, the overlay knows of them, and the heads are those of the
overlay. -/
structure Settled (before : World) (effects : List Effect) (after : World)
    (applied : List (ConversationId × MerkleNode)) : Prop where
  nodup : (applied.map fun entry => hash entry.2).Nodup
  unmarked : ∀ entry ∈ applied, before.store.isVerified (hash entry.2) = false
  verified : ∀ nodeHash, (before.store.applyEffects effects).isVerified nodeHash = true ↔
    (∃ entry ∈ applied, nodeHash = hash entry.2) ∨ before.store.isVerified nodeHash = true
  known : ∀ nodeHash, (before.store.applyEffects effects).isVerified nodeHash = true →
    after.overlay.isVerified nodeHash = true
  heads : (before.store.applyEffects effects).trackHeads = after.overlay.trackHeads
  entered : after.overlay.trackHeads = applied.foldl
    (fun heads entry => enterHeads heads entry.1 entry.2)
    before.overlay.trackHeads
  written : World.verifiedWrites effects = applied
  stored : after.store.isVerified = before.store.isVerified ∧
    after.store.trackHeads = before.store.trackHeads

namespace Settled

variable {before middle after : World} {effects : List Effect}
variable {applied : List (ConversationId × MerkleNode)}

theorem refl {world : World} (hcleared : world.engine.pendingCache = .new) :
    Settled world [] world [] where
  nodup := List.nodup_nil
  unmarked _ hmem := absurd hmem List.not_mem_nil
  verified nodeHash := by simp [InMemoryStore.applyEffects_nil]
  known nodeHash hverified := by
    rw [InMemoryStore.applyEffects_nil] at hverified
    rw [World.overlay, Engine.overlay, hcleared]
    exact hverified
  heads := by
    rw [InMemoryStore.applyEffects_nil, World.overlay, Engine.overlay, hcleared]
    rfl
  entered := rfl
  written := rfl
  stored := ⟨rfl, rfl⟩

/-- A change that leaves the store, the marks and the heads alone. -/
theorem grows (hsettled : Settled before effects middle applied)
    (hstore : after.store.isVerified = middle.store.isVerified ∧
      after.store.trackHeads = middle.store.trackHeads)
    (hgrows : middle.engine.pendingCache.Grows after.engine.pendingCache) :
    Settled before effects after applied where
  nodup := hsettled.nodup
  unmarked := hsettled.unmarked
  verified := hsettled.verified
  known nodeHash hmarked := by
    have hknown := hsettled.known nodeHash hmarked
    rw [World.overlay, Engine.overlay, Overlay.isVerified_iff] at hknown ⊢
    rw [hstore.1]
    exact hknown.imp_left fun hmem => hgrows.verified hmem
  heads := hsettled.heads.trans (World.trackHeads_congr hstore.2 hgrows).symm
  entered := (World.trackHeads_congr hstore.2 hgrows).trans hsettled.entered
  written := hsettled.written
  stored := ⟨hstore.1.trans hsettled.stored.1, hstore.2.trans hsettled.stored.2⟩

/-- Effects that concern neither marks nor heads. -/
theorem append_idle (hsettled : Settled before effects after applied) {effect : Effect}
    (hverified : ∀ store : InMemoryStore, (store.applyEffect effect).isVerified = store.isVerified)
    (hheads : ∀ store : InMemoryStore, (store.applyEffect effect).trackHeads = store.trackHeads)
    (hwritten : World.verifiedWrites [effect] = []) :
    Settled before (effects ++ [effect]) after applied where
  nodup := hsettled.nodup
  unmarked := hsettled.unmarked
  verified nodeHash := by
    rw [InMemoryStore.applyEffects_append, InMemoryStore.applyEffects_single, hverified]
    exact hsettled.verified nodeHash
  known nodeHash hmarked := by
    rw [InMemoryStore.applyEffects_append, InMemoryStore.applyEffects_single,
      hverified] at hmarked
    exact hsettled.known nodeHash hmarked
  heads := by
    rw [InMemoryStore.applyEffects_append, InMemoryStore.applyEffects_single, hheads]
    exact hsettled.heads
  entered := hsettled.entered
  written := by rw [World.verifiedWrites_append, hwritten, hsettled.written, List.append_nil]
  stored := hsettled.stored

variable {conversationId : ConversationId}

/-- An evaluation that applies its node. -/
theorem apply (hsettled : Settled before effects middle applied) {nowMs : Int}
    (hfresh : middle.overlay.isVerified (hash node) = false)
    (happlied : middle.engine.CarriesOut middle.store conversationId node
      (middle.evaluate conversationId node nowMs).1
      (middle.evaluate conversationId node nowMs).2.engine) :
    Settled before
      (effects ++ Engine.evaluationEffects (middle.evaluate conversationId node nowMs).1)
      (middle.evaluate conversationId node nowMs).2 (applied ++ [(conversationId, node)]) := by
  obtain ⟨hmarks, htracks⟩ := happlied.applyEffects (before.store.applyEffects effects)
  -- A node that was marked already would be skipped, so it is the first of its hash.
  have hunmarked : ¬ (before.store.applyEffects effects).isVerified (hash node) = true :=
    fun hmarked => Bool.false_ne_true (hfresh.symm.trans (hsettled.known _ hmarked))
  rw [hsettled.verified, not_or, not_exists] at hunmarked
  constructor
  case nodup =>
    rw [List.map_append, List.nodup_append]
    refine ⟨hsettled.nodup, List.nodup_singleton _, ?_⟩
    intro nodeHash hmem other hother heq
    obtain ⟨entry, hentry, rfl⟩ := List.mem_map.mp hmem
    rw [List.map_singleton, List.mem_singleton] at hother
    exact hunmarked.1 entry ⟨hentry, hother.symm.trans heq.symm⟩
  case unmarked =>
    intro entry hmem
    rcases List.mem_append.mp hmem with hmem | hmem
    · exact hsettled.unmarked entry hmem
    · rw [List.mem_singleton.mp hmem]
      exact Bool.eq_false_iff.mpr hunmarked.2
  case verified =>
    intro nodeHash
    rw [InMemoryStore.applyEffects_append, hmarks, hsettled.verified]
    simp only [List.mem_append, List.mem_singleton]
    constructor
    · rintro (rfl | ⟨entry, hmem, heq⟩ | hstored)
      · exact .inl ⟨_, .inr rfl, rfl⟩
      · exact .inl ⟨entry, .inl hmem, heq⟩
      · exact .inr hstored
    · rintro (⟨entry, hmem | rfl, heq⟩ | hstored)
      · exact .inr (.inl ⟨entry, hmem, heq⟩)
      · exact .inl heq
      · exact .inr (.inr hstored)
  case known =>
    intro nodeHash hmarked
    rw [InMemoryStore.applyEffects_append, hmarks] at hmarked
    rw [World.overlay, Engine.overlay, Overlay.isVerified_iff]
    rcases hmarked with rfl | hmarked
    · exact .inl happlied.marked
    · have hknown := hsettled.known nodeHash hmarked
      rw [World.overlay, Engine.overlay, Overlay.isVerified_iff] at hknown
      exact hknown.imp_left fun hmem => happlied.verified hmem
  case heads =>
    rw [InMemoryStore.applyEffects_append]
    exact htracks hsettled.heads
  case entered =>
    rw [List.foldl_append, ← hsettled.entered]
    exact happlied.heads
  case written =>
    rw [World.verifiedWrites_append, happlied.verifiedWrites, hsettled.written]
  case stored => exact hsettled.stored

/-- An evaluation that applies nothing. -/
theorem skip (hsettled : Settled before effects middle applied) {nowMs : Int}
    (hfresh : middle.overlay.isVerified (hash node) = false)
    (hunapplied : middle.engine.PassesOver conversationId node
      (middle.evaluate conversationId node nowMs).1
      (middle.evaluate conversationId node nowMs).2.engine) :
    Settled before effects (middle.evaluate conversationId node nowMs).2 applied ∧
    Settled before
      (effects ++ Engine.evaluationEffects (middle.evaluate conversationId node nowMs).1)
      (middle.evaluate conversationId node nowMs).2 applied := by
  have hforgotten : Settled before effects (middle.evaluate conversationId node nowMs).2 applied :=
    hsettled.grows ⟨rfl, rfl⟩ hunapplied.grows
  have hunmarked : (before.store.applyEffects effects).isVerified (hash node) = false :=
    Bool.eq_false_iff.mpr fun hmarked =>
      Bool.false_ne_true (hfresh.symm.trans (hsettled.known _ hmarked))
  obtain ⟨hmarks, htracks⟩ := hunapplied.applyEffects (before.store.applyEffects effects) hunmarked
  refine ⟨hforgotten, ?_⟩
  constructor
  case nodup => exact hforgotten.nodup
  case unmarked => exact hforgotten.unmarked
  case verified =>
    rw [InMemoryStore.applyEffects_append, hmarks]
    exact hforgotten.verified
  case known =>
    rw [InMemoryStore.applyEffects_append, hmarks]
    exact hforgotten.known
  case heads =>
    rw [InMemoryStore.applyEffects_append, htracks]
    exact hforgotten.heads
  case entered => exact hforgotten.entered
  case written =>
    rw [World.verifiedWrites_append, hunapplied.verifiedWrites, List.append_nil]
    exact hforgotten.written
  case stored => exact hforgotten.stored

end Settled

/-- The evaluation of a node by a world. -/
def World.evaluation (world : World) (conversationId : ConversationId) (node : MerkleNode)
    (nowMs : Int) : Evaluation :=
  ⟨conversationId, node, nowMs, world.store, world.engine,
    (world.evaluate conversationId node nowMs).1, (world.evaluate conversationId node nowMs).2.engine⟩

theorem World.since_evaluate {before middle : World}
    (hextends : before.evaluations <+: middle.evaluations) (conversationId : ConversationId)
    (node : MerkleNode) (nowMs : Int) :
    before.since (middle.evaluate conversationId node nowMs).2 =
      before.since middle ++ [middle.evaluation conversationId node nowMs] :=
  List.drop_append_of_le_length hextends.length_le

/-- The nodes that are applied with one more evaluation. -/
theorem appliedNodes_push (evaluations : List Evaluation) (evaluation : Evaluation) :
    appliedNodes (evaluations ++ [evaluation]) = appliedNodes evaluations ++
      if evaluation.applies then [(evaluation.conversationId, evaluation.node)] else [] := by
  rw [appliedNodes_append]
  cases happlies : evaluation.applies <;> simp [appliedNodes, happlies]

theorem PendingCache.Grows.noteVerified (world : World) (effects : List Effect) :
    world.engine.pendingCache.Grows (world.noteVerified effects).engine.pendingCache := by
  have hfold : ∀ (written : List (ConversationId × MerkleNode)) (cache : PendingCache),
      cache.Grows (written.foldl (fun cache entry =>
        cache.noteReverified entry.1 entry.2) cache) := by
    intro written
    induction written with
    | nil => exact .refl
    | cons entry rest ih => exact fun cache => (noteReverified cache entry.1 entry.2).trans (ih _)
  exact hfold _ _

variable {before after : World} {effects : List Effect} {nowMs : Int}

/-- The handling of a node settles, if its evaluations are calm. -/
theorem Handling.settled (hhandling : Handling nowMs before effects after)
    (hcleared : before.engine.pendingCache = .new)
    (hcalm : ∀ evaluation ∈ before.since after, evaluation.calm = true) :
    Settled before effects after (appliedNodes (before.since after)) := by
  induction hhandling with
  | refl =>
      rw [World.since, List.drop_length]
      exact .refl hcleared
  | evaluate conversationId node hhandling hfresh ih =>
      have hextends := hhandling.passage.evaluations_prefix
      rw [World.since_evaluate hextends] at hcalm ⊢
      have hmiddle := ih fun evaluation hmem => hcalm evaluation (List.mem_append_left _ hmem)
      have hlast := hcalm _ (List.mem_append_right _ (List.mem_singleton.mpr rfl))
      rw [appliedNodes_push]
      split
      next happlies =>
        exact hmiddle.apply hfresh (Engine.evaluateNode_applied happlies hlast)
      next hidle =>
        rw [List.append_nil]
        exact (hmiddle.skip hfresh
          (Engine.evaluateNode_unapplied (Bool.eq_false_iff.mpr hidle))).2
  | forget conversationId node hhandling hfresh hnothing ih =>
      have hextends := hhandling.passage.evaluations_prefix
      rw [World.since_evaluate hextends] at hcalm ⊢
      have hmiddle := ih fun evaluation hmem => hcalm evaluation (List.mem_append_left _ hmem)
      have hlast := hcalm _ (List.mem_append_right _ (List.mem_singleton.mpr rfl))
      rw [appliedNodes_push]
      split
      next happlies =>
        have happlied := Engine.evaluateNode_applied happlies hlast
        exact nomatch hnothing.symm.trans happlied.verifiedWrites
      next hidle =>
        rw [List.append_nil]
        exact (hmiddle.skip hfresh
          (Engine.evaluateNode_unapplied (Bool.eq_false_iff.mpr hidle))).1
  | report _ event ih => exact (ih hcalm).append_idle (fun _ => rfl) (fun _ => rfl) rfl
  | note _ _ ih => exact (ih hcalm).grows ⟨rfl, rfl⟩ (.noteVerified _ _)
  | hold conversationId _ _ ih =>
      refine Settled.append_idle ?_ (fun _ => rfl) (fun _ => rfl) rfl
      exact (ih hcalm).grows ⟨rfl, rfl⟩ ⟨List.Subset.refl _, rfl, rfl⟩
  | drop nodeHash _ ih =>
      exact (ih hcalm).grows ⟨rfl, rfl⟩ ⟨List.Subset.refl _, rfl, rfl⟩

/-- A node that the store holds as verified is not evaluated. -/
def Evaluation.IsFresh (evaluation : Evaluation) : Prop :=
  evaluation.store.isVerified (hash evaluation.node) = false

theorem Handling.fresh (hhandling : Handling nowMs before effects after)
    (hbefore : ∀ evaluation ∈ before.evaluations, evaluation.IsFresh) :
    ∀ evaluation ∈ after.evaluations, evaluation.IsFresh := by
  have hevaluate : ∀ {middle : World} {conversationId : ConversationId} {node : MerkleNode},
      (∀ evaluation ∈ middle.evaluations, evaluation.IsFresh) →
        middle.overlay.isVerified (hash node) = false →
          ∀ evaluation ∈ (middle.evaluate conversationId node nowMs).2.evaluations,
            evaluation.IsFresh := by
    intro middle conversationId node hmiddle hfresh evaluation hmem
    rcases List.mem_append.mp hmem with hmem | hmem
    · exact hmiddle evaluation hmem
    · rw [List.mem_singleton.mp hmem]
      exact (Bool.or_eq_false_iff.mp hfresh).2
  induction hhandling with
  | refl => exact hbefore
  | evaluate _ _ _ hfresh ih | forget _ _ _ hfresh _ ih => exact hevaluate ih hfresh
  | report _ _ ih | note _ _ ih | hold _ _ _ ih | drop _ _ ih => exact ih

/-! ## Along a run -/

/-- What a call that handles a node does to the store: the nodes that it applies, once each,
are verified and enter the heads. -/
structure World.Advances (world next : World) (applied : List (ConversationId × MerkleNode)) :
    Prop where
  evaluated : world.evaluations <+: next.evaluations
  nodup : (applied.map fun entry => hash entry.2).Nodup
  unmarked : ∀ entry ∈ applied, world.store.isVerified (hash entry.2) = false
  verified : ∀ nodeHash, next.store.isVerified nodeHash = true ↔
    (∃ entry ∈ applied, nodeHash = hash entry.2) ∨ world.store.isVerified nodeHash = true
  heads : next.store.trackHeads = applied.foldl
    (fun heads entry => enterHeads heads entry.1 entry.2)
    world.store.trackHeads
  written : ∃ emitted, next.emitted = world.emitted ++ emitted ∧
    World.verifiedWrites emitted = applied

omit [Primitives] in
theorem World.clearPending_trackHeads (world : World) :
    (world.withEngine world.engine.clearPending).overlay.trackHeads = world.store.trackHeads := by
  funext conversationId isAdmin
  cases isAdmin <;> rfl

theorem World.finish_eq (world : World) (result : Except MerkleToxError (List Effect)) :
    (world.finish result).evaluations = world.evaluations ∧
      (world.finish result).store = world.store.applyEffects (returnedEffects result) ∧
      (world.finish result).emitted = world.emitted ++ returnedEffects result := by
  cases result with
  | ok effects => exact ⟨rfl, rfl, rfl⟩
  | error error => exact ⟨rfl, rfl, (List.append_nil _).symm⟩

theorem World.advances_of_handling {world after : World}
    {result : Except MerkleToxError (List Effect)}
    (hhandling : Handling nowMs (world.withEngine world.engine.clearPending)
      (returnedEffects result) after)
    (hcalm : ∀ evaluation ∈ world.since (after.finish result), evaluation.calm = true) :
    world.Advances (after.finish result) (appliedNodes (world.since (after.finish result))) := by
  obtain ⟨hevaluations, hstore, hemitted⟩ := after.finish_eq result
  have hsince : world.since (after.finish result) =
      (world.withEngine world.engine.clearPending).since after := by
    rw [since, hevaluations]
    rfl
  rw [hsince] at hcalm ⊢
  have hsettled := hhandling.settled rfl hcalm
  obtain ⟨hverified, hheads⟩ := InMemoryStore.applyEffects_congr (returnedEffects result)
    hsettled.stored.1 hsettled.stored.2
  constructor
  case evaluated =>
    rw [hevaluations]
    exact hhandling.passage.evaluations_prefix
  case nodup => exact hsettled.nodup
  case unmarked => exact hsettled.unmarked
  case verified =>
    rw [hstore, hverified]
    exact hsettled.verified
  case heads =>
    rw [hstore, hheads, ← world.clearPending_trackHeads, ← hsettled.entered]
    exact hsettled.heads
  case written =>
    refine ⟨returnedEffects result, ?_, hsettled.written⟩
    rw [hemitted, hhandling.emitted_eq]
    rfl

section Run

variable [WireCodec]

/-- The evaluations of a call that handles a node are calm; another call takes back no
verified node. -/
def World.Calm (world : World) (command : Command) : Prop :=
  match command with
  | .handleNode .. => ∀ evaluation ∈ world.since (world.step command), evaluation.calm = true
  | _ => ∀ nodeHash, world.store.isVerified nodeHash = true →
      (world.step command).store.isVerified nodeHash = true

variable {conversationId : ConversationId} {world : World}

theorem World.handleNode_advances {nowMs : Int} {fuel : Nat}
    (hcalm : world.Calm (.handleNode conversationId node nowMs fuel)) :
    world.Advances (world.step (.handleNode conversationId node nowMs fuel))
      (appliedNodes (world.since (world.step (.handleNode conversationId node nowMs fuel)))) :=
  World.advances_of_handling (world.handleNode_kept conversationId nowMs node fuel).handling hcalm

/-- Every node was applied once, is verified since, and was not verified before. -/
structure World.AppliedOnce (world : World) : Prop where
  nodup : world.appliedHashes.Nodup
  verified : ∀ nodeHash ∈ world.appliedHashes, world.store.isVerified nodeHash = true
  fresh : ∀ evaluation ∈ world.evaluations, evaluation.IsFresh

omit [WireCodec] in
theorem World.appliedHashes_since {before after : World}
    (hextends : before.evaluations <+: after.evaluations) :
    after.appliedHashes = before.appliedHashes ++
      (appliedNodes (before.since after)).map fun entry => hash entry.2 := by
  have hall := List.prefix_iff_eq_append.mp hextends
  rw [appliedHashes, appliedHashes, ← List.map_append, ← appliedNodes_append, since, hall]

theorem World.AppliedOnce.handleNode (honce : world.AppliedOnce) {nowMs : Int} {fuel : Nat}
    (hcalm : world.Calm (.handleNode conversationId node nowMs fuel)) :
    (world.step (.handleNode conversationId node nowMs fuel)).AppliedOnce := by
  have hadvances := World.handleNode_advances hcalm
  have hhandling := (world.handleNode_kept conversationId nowMs node fuel).handling
  constructor
  case nodup =>
    rw [World.appliedHashes_since hadvances.evaluated, List.nodup_append]
    refine ⟨honce.nodup, hadvances.nodup, fun nodeHash hold other hnew heq => ?_⟩
    obtain ⟨entry, hentry, rfl⟩ := List.mem_map.mp hnew
    have hunmarked := hadvances.unmarked entry hentry
    rw [← heq, honce.verified nodeHash hold] at hunmarked
    cases hunmarked
  case verified =>
    intro nodeHash hmem
    rw [World.appliedHashes_since hadvances.evaluated] at hmem
    rw [hadvances.verified]
    rcases List.mem_append.mp hmem with hold | hnew
    · exact .inr (honce.verified nodeHash hold)
    · obtain ⟨entry, hentry, rfl⟩ := List.mem_map.mp hnew
      exact .inl ⟨entry, hentry, rfl⟩
  case fresh =>
    intro evaluation hmem
    have hkept : (world.step (.handleNode conversationId node nowMs fuel)).evaluations =
      (world.handleNode conversationId node nowMs fuel).2.evaluations := (finish_eq _ _).1
    rw [hkept] at hmem
    exact hhandling.fresh honce.fresh evaluation hmem

omit [WireCodec] in
theorem World.call_evaluations (world : World) (outcome : Outcome) :
    (world.call outcome).evaluations = world.evaluations := (finish_eq _ _).1

theorem World.AppliedOnce.step (honce : world.AppliedOnce) {command : Command}
    (hcalm : world.Calm command) : (world.step command).AppliedOnce := by
  have hother : (world.step command).evaluations = world.evaluations →
      (∀ nodeHash, world.store.isVerified nodeHash = true →
        (world.step command).store.isVerified nodeHash = true) →
      (world.step command).AppliedOnce := by
    intro hsame hkept
    refine ⟨?_, ?_, ?_⟩
    · rw [World.appliedHashes, hsame]
      exact honce.nodup
    · rw [World.appliedHashes, hsame]
      exact fun nodeHash hmem => hkept nodeHash (honce.verified nodeHash hmem)
    · rw [hsame]
      exact honce.fresh
  cases command with
  | handleNode conversationId node nowMs fuel => exact honce.handleNode hcalm
  | authorNode | rotateConversationKey
  | senderRekey => exact hother (world.call_evaluations _) hcalm
  | storeWire => exact hother (World.finish_eq _ _).1 hcalm

/-- In every run whose evaluations are calm and whose other calls take back no verified node,
the side effects of every node are applied at most once, and not at all by an evaluation if
the store has the node as verified. -/
theorem run_appliesOnce (engine : Engine) (store : InMemoryStore) (commands : List Command)
    (hcalm : RunMeets World.step World.Calm ⟨engine, store, [], []⟩ commands) :
    (World.run ⟨engine, store, [], []⟩ commands).appliedHashes.Nodup ∧
      ∀ evaluation ∈ (World.run ⟨engine, store, [], []⟩ commands).evaluations,
        evaluation.store.isVerified (hash evaluation.node) = false := by
  have honce : World.AppliedOnce ⟨engine, store, [], []⟩ :=
    ⟨List.nodup_nil, fun _ hmem => absurd hmem List.not_mem_nil,
      fun _ hmem => absurd hmem List.not_mem_nil⟩
  have hend := hcalm.invariant World.AppliedOnce (fun _ _ honce => honce.step) honce
  exact ⟨hend.nodup, hend.fresh⟩

end Run

end Applied

namespace OnceApplied

/-! ## A bootstrap node that waits -/

open Reference

/-- An observer with keys of its own. -/
def observer : World := ⟨.new ⟨5⟩ ⟨5⟩ none none ⟨1, 0⟩, .new, [], []⟩

/-- The founder authorizes a device. -/
def authorization (parent : NodeHash) : MerkleNode :=
  sign
    { parents := [parent]
      authorPk := ⟨1⟩
      senderPk := ⟨1⟩
      sequenceNumber := 2
      topologicalRank := 1
      networkTimestamp := 1000
      content := .control (.authorizeDevice (certificate ⟨50⟩))
      metadata := []
      authentication := .ephemeralSignature ⟨0⟩
      powNonce := 0 }

def arrival (node : MerkleNode) : Command := .handleNode room node 1000 1

/-- Behind its parent the authorization is applied once. -/
theorem run_appliesOnce_authorization :
    (observer.run [arrival genesis, arrival (authorization (hash genesis))]).appliedHashes =
        [hash genesis, hash (authorization (hash genesis))] ∧
      (observer.run [arrival genesis,
        arrival (authorization (hash genesis))]).appliedHashes.Nodup := by
  have hgenesis : ∀ evaluation ∈ observer.since (observer.step (arrival genesis)),
      evaluation.calm = true := by decide +kernel
  have hauthorization : ∀ evaluation ∈ (observer.step (arrival genesis)).since
      ((observer.step (arrival genesis)).step (arrival (authorization (hash genesis)))),
      evaluation.calm = true := by decide +kernel
  have hmeets : RunMeets World.step World.Calm observer
      [arrival genesis, arrival (authorization (hash genesis))] :=
    ⟨hgenesis, hauthorization, trivial⟩
  have happlied : (observer.run [arrival genesis,
      arrival (authorization (hash genesis))]).appliedHashes =
        [hash genesis, hash (authorization (hash genesis))] := by decide +kernel
  have honce : (observer.run [arrival genesis,
      arrival (authorization (hash genesis))]).appliedHashes.Nodup :=
    (run_appliesOnce observer.engine observer.store [arrival genesis,
      arrival (authorization (hash genesis))] hmeets).1
  exact ⟨happlied, honce⟩

/-- Without its parent it is applied, stored as speculative and applied again by the
re-verification of the same call. -/
theorem dangling_appliedTwice :
    ¬ (observer.run [arrival genesis, arrival (authorization ⟨77⟩)]).appliedHashes.Nodup := by
  decide +kernel

end OnceApplied

end MerkleTox.Core
