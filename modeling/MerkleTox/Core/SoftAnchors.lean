import MerkleTox.Core.OnceApplied

/-! # Soft anchors

A device may anchor itself on a basis once: the engine keeps the pairs of device and basis of the
soft anchors that it has verified, and takes no second one of a pair. It knows only those that it
has evaluated itself since it was made, neither the ones that it authored nor those that an
earlier engine left verified in the store.
-/

namespace MerkleTox.Core

open Library Proto

variable {content : Content} {key : AnchorKey} {outcome : Outcome}

/-- A conversation, a device and the basis on which it anchors itself. -/
abbrev AnchorKey := ConversationId × PhysicalDevicePk × NodeHash

def contentAnchor (conversationId : ConversationId) (devicePk : PhysicalDevicePk) :
    Content → Option AnchorKey
  | .control (.softAnchor basisHash _) => some (conversationId, devicePk, basisHash)
  | _ => none

def anchorKey (conversationId : ConversationId) (node : MerkleNode) : Option AnchorKey :=
  contentAnchor conversationId node.senderPk node.content

/-- The pairs of the soft anchors that effects write as verified, once for each write. -/
def anchorKeys (effects : List Effect) : List AnchorKey :=
  (World.verifiedWrites effects).filterMap fun written => anchorKey written.1 written.2

/-- The engine has noted a pair. -/
def Engine.knowsAnchor (engine : Engine) (key : AnchorKey) : Bool :=
  ((engine.softAnchorDedup.get key.1).getD []).contains key.2

theorem anchorKeys_append (first second : List Effect) :
    anchorKeys (first ++ second) = anchorKeys first ++ anchorKeys second := by
  rw [anchorKeys, World.verifiedWrites_append, List.filterMap_append]
  rfl

theorem anchorKeys_private {effects : List Effect}
    (hprivate : ∀ effect ∈ effects, effect.isPrivate = true) : anchorKeys effects = [] := by
  rw [anchorKeys, World.verifiedWrites_private hprivate]
  rfl

theorem anchorKeys_written (conversationId : ConversationId) (node : MerkleNode) :
    anchorKeys [.writeStore conversationId node true] =
      (anchorKey conversationId node).toList := by
  have hwrites : World.verifiedWrites [.writeStore conversationId node true] =
      [(conversationId, node)] := rfl
  rw [anchorKeys, hwrites, List.filterMap_cons]
  cases anchorKey conversationId node <;> rfl

variable {conversationId : ConversationId}

theorem contentAnchor_eq_none {devicePk : PhysicalDevicePk}
    (hother : content.isSoftAnchor = false) :
    contentAnchor conversationId devicePk content = none := by
  unfold contentAnchor
  split
  next => cases hother
  next => rfl

theorem anchorKey_eq_some {node : MerkleNode} (hkey : anchorKey conversationId node = some key) :
    ∃ basisHash cert, node.content = .control (.softAnchor basisHash cert) ∧
      key = (conversationId, node.senderPk, basisHash) := by
  cases hcontent : node.content with
  | control action =>
      rw [anchorKey, hcontent] at hkey
      cases action with
      | softAnchor basisHash cert => exact ⟨basisHash, cert, rfl, (Option.some.inj hkey).symm⟩
      | _ => cases hkey
  | _ =>
      rw [anchorKey, hcontent] at hkey
      cases hkey

theorem Content.isSoftAnchor_of_keys
    (hkeys : content.isKeyWrap = true ∨ content.isSenderKeyDistribution = true) :
    content.isSoftAnchor = false := by
  cases content with
  | control action => rcases hkeys with hkeys | hkeys <;> cases hkeys
  | _ => rfl

/-! ## Calls that author no soft anchor -/

/-- A call that authors no more than key distributions and evaluates nothing. -/
def Sources.keyCalls : Sources where
  evaluated _ _ := False
  authored content := content.isKeyWrap = true ∨ content.isSenderKeyDistribution = true
  keys _ hkeys := hkeys

section Traces

variable [Primitives] {store : InMemoryStore} {nowMs : Int} {origin : Sources}
variable {before after : Engine} {effects : List Effect}

theorem Move.dedup_eq (hmove : Move store nowMs origin before effects after)
    (hnone : ∀ conversationId node, ¬ origin.evaluated conversationId node) :
    after.softAnchorDedup = before.softAnchorDedup := by
  cases hmove with
  | quiet hsettled => exact congrArg (fun settled => settled.2.2.1) hsettled
  | accept conversationId node pairs horigin => exact absurd horigin (hnone _ _)
  | heads conversationId node =>
      unfold Engine.updateHeads
      simp only
      split <;> rfl
  | _ => rfl

/-- The pairs change in evaluations only. -/
theorem Trace.dedup_eq (htrace : Trace store nowMs origin before effects after)
    (hnone : ∀ conversationId node, ¬ origin.evaluated conversationId node) :
    after.softAnchorDedup = before.softAnchorDedup := by
  induction htrace with
  | refl => rfl
  | keep _ hmove _ ih | lose _ hmove ih => exact (hmove.dedup_eq hnone).trans ih
  | clear _ ih => exact ih

theorem Move.anchorKeys_eq_nil (hmove : Move store nowMs .keyCalls before effects after) :
    anchorKeys effects = [] := by
  cases hmove with
  | quiet hsettled hprivate => exact anchorKeys_private hprivate
  | evaluated conversationId node verified horigin => exact horigin.elim
  | own conversationId node hdraft hcontent =>
      rw [anchorKeys_written, anchorKey,
        contentAnchor_eq_none (Content.isSoftAnchor_of_keys hcontent)]
      rfl
  | heads conversationId node =>
      unfold Engine.updateHeads
      simp only
      split <;> rfl
  | _ => rfl

/-- Distributing keys writes no soft anchor. -/
theorem Trace.anchorKeys_eq_nil (htrace : Trace store nowMs .keyCalls before effects after) :
    anchorKeys effects = [] := by
  induction htrace with
  | refl => rfl
  | keep _ hmove _ ih => rw [anchorKeys_append, ih, hmove.anchorKeys_eq_nil, List.append_nil]
  | lose _ _ ih => exact ih
  | clear _ ih => exact ih

end Traces

/-! ## Evaluations -/

namespace Engine

variable [Primitives] (engine : Engine) (store : InMemoryStore) (conversationId : ConversationId)
variable (node : MerkleNode) (nowMs : Int)

/-- What an evaluation does to the pairs: none is forgotten, and at most the pair of the node is
written as verified, which was not known before and is known now. -/
structure AnchorsOnce (before : Engine) (keys : List AnchorKey) (after : Engine) : Prop where
  known : ∀ key, before.knowsAnchor key = true → after.knowsAnchor key = true
  fresh : keys = [] ∨ ∃ key, keys = [key] ∧ anchorKey conversationId node = some key ∧
    before.knowsAnchor key = false ∧ after.knowsAnchor key = true

omit [Primitives] in
variable {conversationId node} in
theorem AnchorsOnce.silent {before after : Engine}
    (hsame : after.softAnchorDedup = before.softAnchorDedup) :
    AnchorsOnce conversationId node before [] after where
  known key hknown := by rwa [knowsAnchor, hsame]
  fresh := .inl rfl

omit [Primitives] in
theorem dedupSoftAnchor_known (verified : Bool) (key : AnchorKey)
    (hknown : engine.knowsAnchor key = true) :
    (engine.dedupSoftAnchor conversationId node verified).2.knowsAnchor key = true := by
  unfold dedupSoftAnchor
  split
  next basisHash cert hcontent =>
    simp only
    split
    · exact hknown
    · split
      · exact hknown
      · unfold knowsAnchor at hknown ⊢
        rw [List.contains_iff_mem] at hknown ⊢
        simp only [AssocMap.get_insert]
        split
        next heq => exact List.mem_append_left _ (heq ▸ hknown)
        next => exact hknown
  next => exact hknown

omit [Primitives] in
/-- A soft anchor that is taken was not known and is known afterwards. -/
theorem dedupSoftAnchor_fresh {verified : Bool}
    (haccepted : (engine.dedupSoftAnchor conversationId node verified).1 = true)
    (hkey : anchorKey conversationId node = some key) :
    engine.knowsAnchor key = false ∧
      (engine.dedupSoftAnchor conversationId node verified).2.knowsAnchor key = true := by
  obtain ⟨basisHash, cert, hcontent, rfl⟩ := anchorKey_eq_some hkey
  unfold dedupSoftAnchor at haccepted ⊢
  rw [hcontent] at haccepted ⊢
  simp only at haccepted ⊢
  split at haccepted
  · cases haccepted
  next hverified =>
    split at haccepted
    · cases haccepted
    next hunknown =>
      rw [if_neg hverified, if_neg hunknown]
      refine ⟨Bool.eq_false_iff.mpr hunknown, ?_⟩
      unfold knowsAnchor
      simp only [AssocMap.get_insert_self, Option.getD_some, List.contains_iff_mem]
      exact List.mem_append_right _ (List.mem_singleton_self _)

theorem decideVerified_dedup (assessment : Assessment) (authentic : Bool) :
    (engine.decideVerified conversationId node assessment authentic).2.softAnchorDedup =
      engine.softAnchorDedup := by
  unfold decideVerified judgeCertificate
  split
  · rfl
  · split
    · rfl
    · split
      · rfl
      · split <;> rfl

/-- The node is written as it was judged, and what follows distributes keys at most. -/
theorem commit_anchors {keyEffects : List Effect}
    (hprivate : ∀ effect ∈ keyEffects, effect.isPrivate = true) (opkIds : List NodeHash)
    (verified authentic : Bool) :
    (engine.commit store conversationId node keyEffects opkIds verified authentic
        nowMs).2.softAnchorDedup = engine.softAnchorDedup ∧
      (anchorKeys (evaluationEffects (engine.commit store conversationId node keyEffects opkIds
          verified authentic nowMs).1) = [] ∨
        verified = true ∧ anchorKeys (evaluationEffects (engine.commit store conversationId node
          keyEffects opkIds verified authentic nowMs).1) =
            (anchorKey conversationId node).toList) := by
  unfold commit
  split
  next heq =>
    rw [storeNode_error heq]
    exact ⟨rfl, .inl rfl⟩
  next stored heq =>
    have hstored : stored.softAnchorDedup = engine.softAnchorDedup := by
      rw [storeNode_ok heq]
    have hrecorded : (stored.recordNode conversationId node opkIds verified authentic
        nowMs).softAnchorDedup = engine.softAnchorDedup := by
      obtain ⟨conversations, keys, seqs, hframe⟩ :=
        stored.recordNode_frame conversationId node nowMs opkIds verified authentic
      rw [hframe]
      exact hstored
    have hsettle : Outcome.Traces _ store nowMs .keyCalls
        (stored.recordNode conversationId node opkIds verified authentic nowMs) :=
      settle_trace _ store conversationId node nowMs verified authentic
    split
    next heq =>
      exact ⟨((hsettle.error heq).dedup_eq fun _ _ h => h).trans hrecorded, .inl rfl⟩
    next effects settled heq =>
      have htrace := hsettle.ok heq
      refine ⟨(htrace.dedup_eq fun _ _ h => h).trans hrecorded, ?_⟩
      have hkeys : anchorKeys (keyEffects ++ [.writeStore conversationId node verified] ++ effects) =
          anchorKeys [.writeStore conversationId node verified] := by
        rw [anchorKeys_append, anchorKeys_append, anchorKeys_private hprivate,
          htrace.anchorKeys_eq_nil, List.append_nil, List.nil_append]
      cases verified with
      | true => exact .inr ⟨rfl, hkeys.trans (anchorKeys_written conversationId node)⟩
      | false => exact .inl hkeys

theorem conclude_anchors (assessment : Assessment) :
    AnchorsOnce conversationId node engine
      (anchorKeys (evaluationEffects
        (engine.conclude store conversationId node assessment nowMs).1))
      (engine.conclude store conversationId node assessment nowMs).2 := by
  let keys := engine.usedKeys conversationId node assessment
  let authentic := keys.engine.isAuthentic store conversationId node
  let decided := keys.engine.decideVerified conversationId node assessment authentic
  let judged := decided.2.dedupSoftAnchor conversationId node decided.1
  have hdecided : ∀ key, decided.2.knowsAnchor key = engine.knowsAnchor key := by
    intro key
    obtain ⟨conversations, consumed, restored, hused⟩ :=
      engine.usedKeys_frame conversationId node assessment
    have hsame : decided.2.softAnchorDedup = keys.engine.softAnchorDedup :=
      keys.engine.decideVerified_dedup conversationId node assessment authentic
    rw [knowsAnchor, hsame, show keys.engine = _ from hused]
    rfl
  obtain ⟨hsame, hkeys⟩ := judged.2.commit_anchors store conversationId node nowMs
    (engine.usedKeys_private conversationId node assessment) keys.opkIds judged.1 authentic
  have hcommitted : ∀ key, (engine.conclude store conversationId node assessment
      nowMs).2.knowsAnchor key = judged.2.knowsAnchor key := by
    intro key
    unfold knowsAnchor
    exact congrArg (fun pairs => ((AssocMap.get pairs key.1).getD []).contains key.2) hsame
  refine ⟨fun key hknown => ?_, ?_⟩
  · rw [hcommitted]
    exact decided.2.dedupSoftAnchor_known conversationId node decided.1 key
      ((hdecided key).trans hknown)
  · rcases hkeys with hnone | ⟨hverified, hwritten⟩
    · exact .inl hnone
    · cases hkey : anchorKey conversationId node with
      | none =>
          rw [hkey] at hwritten
          exact .inl hwritten
      | some key =>
          rw [hkey] at hwritten
          obtain ⟨hunknown, hknown⟩ :=
            decided.2.dedupSoftAnchor_fresh conversationId node hverified hkey
          exact .inr ⟨key, hwritten, rfl, (hdecided key).symm.trans hunknown,
            (hcommitted key).trans hknown⟩

/-- An evaluation takes a soft anchor of an unknown pair at most. -/
theorem evaluateNode_anchors :
    AnchorsOnce conversationId node engine
      (anchorKeys (evaluationEffects (engine.evaluateNode store conversationId node nowMs).1))
      (engine.evaluateNode store conversationId node nowMs).2 := by
  have hvet : Looked engine (engine.vet store conversationId node nowMs).2 := vet_looked
  obtain ⟨distances, ancestors, searches, paths, equivocations, hlooked⟩ := hvet
  have hsame : (engine.vet store conversationId node nowMs).2.softAnchorDedup =
      engine.softAnchorDedup := by rw [hlooked]
  unfold evaluateNode
  split
  next heq =>
    rw [heq] at hsame
    exact .silent hsame
  next assessment vetted heq =>
    rw [heq] at hsame
    have hknows : ∀ key, vetted.knowsAnchor key = engine.knowsAnchor key := by
      intro key
      rw [knowsAnchor, hsame]
      rfl
    obtain ⟨hknown, hfresh⟩ := vetted.conclude_anchors store conversationId node nowMs assessment
    refine ⟨fun key hbefore => hknown key ((hknows key).trans hbefore), ?_⟩
    rcases hfresh with hnone | ⟨key, hkeys, hkey, hunknown, hafter⟩
    · exact .inl hnone
    · exact .inr ⟨key, hkeys, hkey, (hknows key).symm.trans hunknown, hafter⟩

end Engine

/-! ## Handling a node -/

section Handling

variable [Primitives]

/-- The pair of a soft anchor that is evaluated is known to the engine if it is used. -/
def Evaluation.Recalls (used : List AnchorKey) (evaluation : Evaluation) : Prop :=
  ∀ key, anchorKey evaluation.conversationId evaluation.node = some key → key ∈ used →
    evaluation.before.knowsAnchor key = true

/-- What the handling of a node writes: pairs that were not used, once each, and known. -/
structure Handling.Anchored (used : List AnchorKey) (before after : World)
    (effects : List Effect) : Prop where
  known : ∀ key, before.engine.knowsAnchor key = true → after.engine.knowsAnchor key = true
  nodup : (anchorKeys effects).Nodup
  fresh : ∀ key ∈ anchorKeys effects, key ∉ used ∧ after.engine.knowsAnchor key = true

variable {used : List AnchorKey}

omit [Primitives] in
/-- Whatever writes no soft anchor and leaves the pairs alone may follow. -/
theorem Handling.Anchored.append {before middle after : World} {effects more : List Effect}
    (hanchored : Anchored used before middle effects) (hmore : anchorKeys more = [])
    (hsame : after.engine.softAnchorDedup = middle.engine.softAnchorDedup) :
    Anchored used before after (effects ++ more) := by
  have hkeys : anchorKeys (effects ++ more) = anchorKeys effects := by
    rw [anchorKeys_append, hmore, List.append_nil]
  have hknows : ∀ key, after.engine.knowsAnchor key = middle.engine.knowsAnchor key := by
    intro key
    rw [Engine.knowsAnchor, hsame]
    rfl
  constructor
  · exact fun key hknown => (hknows key).trans (hanchored.known key hknown)
  · rw [hkeys]
    exact hanchored.nodup
  · intro key hmem
    rw [hkeys] at hmem
    obtain ⟨hunused, hknown⟩ := hanchored.fresh key hmem
    exact ⟨hunused, (hknows key).trans hknown⟩

theorem World.evaluate_anchors (world : World) (conversationId : ConversationId)
    (node : MerkleNode) (nowMs : Int) :
    Engine.AnchorsOnce conversationId node world.engine
      (anchorKeys (Engine.evaluationEffects (world.evaluate conversationId node nowMs).1))
      (world.evaluate conversationId node nowMs).2.engine :=
  world.engine.evaluateNode_anchors world.store conversationId node nowMs

theorem Handling.anchored {nowMs : Int} {before after : World} {effects : List Effect}
    (hhandling : Handling nowMs before effects after)
    (hrecalls : ∀ evaluation ∈ before.since after, evaluation.Recalls used) :
    Anchored used before after effects := by
  -- The last evaluation recalls the keys used so far, and so do those before it.
  have hsplit : ∀ {middle : World} {effects : List Effect} {conversationId : ConversationId}
      {node : MerkleNode}, Handling nowMs before effects middle →
        (∀ evaluation ∈ before.since (middle.evaluate conversationId node nowMs).2,
          evaluation.Recalls used) →
        (∀ evaluation ∈ before.since middle, evaluation.Recalls used) ∧
          (middle.evaluation conversationId node nowMs).Recalls used := by
    intro middle effects conversationId node hmiddle hrecalls
    rw [World.since_evaluate hmiddle.passage.evaluations_prefix] at hrecalls
    exact ⟨fun evaluation hmem => hrecalls evaluation (List.mem_append_left _ hmem),
      hrecalls _ (List.mem_append_right _ (List.mem_singleton_self _))⟩
  induction hhandling with
  | refl => exact ⟨fun _ h => h, List.nodup_nil, fun _ hmem => absurd hmem List.not_mem_nil⟩
  | @evaluate middle effects conversationId node hmiddle hfresh ih =>
      obtain ⟨hbefore, hrecalled⟩ := hsplit hmiddle hrecalls
      have hanchored := ih hbefore
      obtain ⟨hknown, hwritten⟩ := middle.evaluate_anchors conversationId node nowMs
      refine ⟨fun key h => hknown key (hanchored.known key h), ?_, ?_⟩
      · rw [anchorKeys_append]
        rcases hwritten with hnone | ⟨key, hkeys, hkey, hunknown, hafter⟩
        · rw [hnone, List.append_nil]
          exact hanchored.nodup
        · rw [hkeys, List.nodup_append]
          refine ⟨hanchored.nodup, List.nodup_singleton _, fun first hfirst second hsecond => ?_⟩
          rintro rfl
          cases List.mem_singleton.mp hsecond
          -- A key written before is known by now, and this one was unknown.
          cases hunknown.symm.trans (hanchored.fresh _ hfirst).2
      · intro written hmem
        rw [anchorKeys_append] at hmem
        rcases List.mem_append.mp hmem with hmem | hmem
        · exact ⟨(hanchored.fresh written hmem).1, hknown _ (hanchored.fresh written hmem).2⟩
        · rcases hwritten with hnone | ⟨key, hkeys, hkey, hunknown, hafter⟩
          · rw [hnone] at hmem
            exact absurd hmem List.not_mem_nil
          · rw [hkeys] at hmem
            cases List.mem_singleton.mp hmem
            refine ⟨fun hused => ?_, hafter⟩
            cases hunknown.symm.trans (hrecalled written hkey hused)
  | @forget middle effects conversationId node hmiddle hfresh hnothing ih =>
      have hanchored := ih (hsplit hmiddle hrecalls).1
      have hknown := (middle.evaluate_anchors conversationId node nowMs).known
      exact ⟨fun key h => hknown key (hanchored.known key h), hanchored.nodup, fun key hmem =>
        ⟨(hanchored.fresh key hmem).1, hknown key (hanchored.fresh key hmem).2⟩⟩
  | report _ event ih => exact (ih hrecalls).append rfl rfl
  | note _ _ ih => exact ⟨(ih hrecalls).known, (ih hrecalls).nodup, (ih hrecalls).fresh⟩
  | hold conversationId _ _ ih => exact (ih hrecalls).append rfl rfl
  | drop _ _ ih => exact ⟨(ih hrecalls).known, (ih hrecalls).nodup, (ih hrecalls).fresh⟩

end Handling

/-! ## Authoring -/

namespace Engine

variable [Primitives] (engine : Engine) (store : InMemoryStore) (conversationId : ConversationId)
variable (nowMs : Int)

/-- After a content node a soft anchor is due, and no snapshot. -/
def anchorsNext : Bool :=
  !((engine.establishedState conversationId).any fun em =>
    0 < em.messageCount && em.messageCount % messagesPerAnchor = 0) &&
      (engine.softAnchorDue store conversationId).1

/-- The pairs of the soft anchors that a call is to author: that of its content, or that of the
anchor which is due after it, on the first admin head. -/
def ownAnchors (content : Content) (metadata : Bytes) : List AnchorKey :=
  if content.isControl then (contentAnchor conversationId engine.selfPk content).toList
  else
    match engine.authorNodeOnce store conversationId content metadata nowMs with
    | (.error _, _) => []
    | (.ok _, after) =>
        if after.anchorsNext store conversationId then
          ((store.adminHeads.get conversationId).getD []).head?.toList.map
            fun basisHash => (conversationId, engine.selfPk, basisHash)
        else []

theorem ownEffects_anchors (node : MerkleNode) (wire : Option WireNode) :
    anchorKeys (engine.ownEffects conversationId node wire) =
      (anchorKey conversationId node).toList := by
  have hwire : anchorKeys (wire.map (.writeWireNode conversationId (hash node))).toList = [] := by
    cases wire <;> rfl
  unfold ownEffects
  rw [anchorKeys_append, anchorKeys_append, anchorKeys_written, hwire, List.append_nil]
  split
  · split
    · rfl
    · rfl
  · rfl

theorem authorWithRotation_anchors (content : Content) (metadata : Bytes)
    (useEpoch : Option Nat) :
    ∀ effects, (engine.authorWithRotation store conversationId content metadata useEpoch
        nowMs).1 = .ok effects →
      anchorKeys effects = (contentAnchor conversationId engine.selfPk content).toList := by
  intro effects hok
  unfold authorWithRotation authorNodeInternal at hok
  simp only at hok
  split at hok
  next => cases hok
  next node wire signed hsigned =>
    obtain ⟨authentication, hnode⟩ := engine.signNode_draft conversationId node nowMs hsigned
    have hkey : anchorKey conversationId node =
        contentAnchor conversationId engine.selfPk content := by
      rw [hnode]
      rfl
    have hside : Outcome.Traces _ store nowMs .keyCalls _ :=
      applySideEffects_trace (signed.putOwn conversationId node wire nowMs).2 store conversationId
        node nowMs fun engine flag =>
          engine.rotateConversationKey_trace store conversationId nowMs flag
    split at hok
    next => cases hok
    next sideEffects acted heq =>
      cases hok
      have hinvalidated : anchorKeys (if changesAuthorization node.content then
          acted.revalidateAllVerifiedNodes store conversationId nowMs else ([], acted)).1 = [] := by
        split
        · exact (acted.revalidateAllVerifiedNodes_trace store conversationId
            nowMs).anchorKeys_eq_nil
        · rfl
      rw [anchorKeys_append, anchorKeys_append, anchorKeys_append, ownEffects_anchors, hkey,
        (hside.ok heq).anchorKeys_eq_nil, hinvalidated, List.append_nil, List.append_nil]
      exact List.append_nil _

theorem authorNodeOnce_anchors (content : Content) (metadata : Bytes) :
    ∀ effects, (engine.authorNodeOnce store conversationId content metadata nowMs).1 =
        .ok effects →
      anchorKeys effects = (contentAnchor conversationId engine.selfPk content).toList := by
  intro effects hok
  have hrefresh : Outcome.Traces _ store nowMs .keyCalls engine.clearPending :=
    refreshKeys_trace _ store conversationId nowMs
  unfold authorNodeOnce at hok
  simp only at hok
  split at hok
  · cases hok
  · split at hok
    next => cases hok
    next refreshed fresh heq =>
      have hfresh := hrefresh.ok heq
      have hshared : Trace store nowMs .keyCalls fresh _ _ :=
        shareJustInTime_trace fresh store conversationId nowMs content
      have hself : (fresh.shareJustInTime store conversationId content nowMs).2.selfPk =
          engine.selfPk :=
        congrArg Prod.fst (hshared.device_eq.trans hfresh.device_eq)
      split at hok
      next => cases hok
      next authored final hauthored =>
        cases hok
        have hwritten := authorWithRotation_anchors
          (fresh.shareJustInTime store conversationId content nowMs).2 store conversationId nowMs
          content metadata _ authored (congrArg Prod.fst hauthored)
        rw [anchorKeys_append, anchorKeys_append, hfresh.anchorKeys_eq_nil,
          hshared.anchorKeys_eq_nil, hwritten, hself]
        rfl

theorem createSnapshot_anchors :
    ∀ effects, (engine.createSnapshot store conversationId nowMs).1 = .ok effects →
      anchorKeys effects = [] := by
  intro effects hok
  unfold createSnapshot at hok
  split at hok
  · cases hok
  · exact engine.authorNodeOnce_anchors store conversationId nowMs _ _ effects hok

theorem authorSoftAnchor_anchors :
    ∀ effects, (engine.authorSoftAnchor store conversationId nowMs).1 = .ok effects →
      anchorKeys effects = ((store.adminHeads.get conversationId).getD []).head?.toList.map
        fun basisHash => (conversationId, engine.selfPk, basisHash) := by
  intro effects hok
  unfold authorSoftAnchor at hok
  split at hok
  · cases hok
  · cases hok
  next basisHash rest cert hheads _ =>
    rw [hheads]
    exact engine.authorNodeOnce_anchors store conversationId nowMs _ _ effects hok

theorem softAnchorDue_selfPk :
    (engine.softAnchorDue store conversationId).2.selfPk = engine.selfPk := by
  unfold softAnchorDue
  split
  · rfl
  · simp only
    split <;> rfl

/-- The automatic anchor takes the first admin head, if it is authored at all. -/
theorem autoAnchor_anchors :
    (anchorKeys (engine.autoAnchor store conversationId nowMs).1).Sublist
      (if engine.anchorsNext store conversationId then
        ((store.adminHeads.get conversationId).getD []).head?.toList.map
          fun basisHash => (conversationId, engine.selfPk, basisHash)
      else []) := by
  unfold autoAnchor anchorsNext
  simp only
  split
  next hsnapshot =>
    split
    next effects after heq =>
      rw [engine.createSnapshot_anchors store conversationId nowMs effects
        (congrArg Prod.fst heq)]
      exact List.nil_sublist _
    next => exact List.nil_sublist _
  next hsnapshot =>
    split
    next => exact List.nil_sublist _
    next due heq =>
      have hself : due.selfPk = engine.selfPk := by
        rw [← engine.softAnchorDue_selfPk store conversationId, heq]
      split
      next effects after hanchor =>
        rw [due.authorSoftAnchor_anchors store conversationId nowMs effects
          (congrArg Prod.fst hanchor), hself, heq, Bool.eq_false_iff.mpr hsnapshot]
        exact List.Sublist.refl _
      next => exact List.nil_sublist _

/-- A call that succeeds writes none but its own soft anchors. -/
theorem authorNode_anchors (content : Content) (metadata : Bytes) :
    ∀ effects, (engine.authorNode store conversationId content metadata nowMs).1 = .ok effects →
      (anchorKeys effects).Sublist
        (engine.ownAnchors store conversationId nowMs content metadata) := by
  intro effects hok
  unfold authorNode at hok
  rcases heq : engine.authorNodeOnce store conversationId content metadata nowMs with
    ⟨error | once, after⟩
  · rw [heq] at hok
    cases hok
  · rw [heq] at hok
    have honce := engine.authorNodeOnce_anchors store conversationId nowMs content metadata once
      (congrArg Prod.fst heq)
    by_cases hcontrol : content.isControl = true
    · simp only [hcontrol, if_true] at hok
      cases hok
      rw [ownAnchors, if_pos hcontrol, honce]
    · simp only [hcontrol] at hok
      cases hok
      have hself : after.selfPk = engine.selfPk := by
        have htrace : Outcome.Traces _ store nowMs .calls engine :=
          engine.authorNodeOnce_trace store conversationId nowMs content metadata trivial
        exact congrArg Prod.fst (htrace.ok heq).device_eq
      have hnone : contentAnchor conversationId engine.selfPk content = none := by
        cases content with
        | control => exact absurd rfl hcontrol
        | _ => rfl
      have hauto := after.autoAnchor_anchors store conversationId nowMs
      rw [ownAnchors, if_neg hcontrol, heq, anchorKeys_append, honce, hnone]
      rwa [hself] at hauto

end Engine

/-! ## Runs with restarts -/

/-- What happens to an engine and its store: calls and loads of conversations, and restarts, which
leave the store only. -/
inductive DeviceCommand
  | lifetime (command : LifetimeCommand)
  | restart (selfPk : PhysicalDevicePk) (selfLogicalPk : LogicalIdentityPk)
      (selfSk : Option SigningKey) (selfDhSk : Option EphemeralX25519Sk) (rng : Rng)

namespace World

variable [Primitives] [WireCodec]

def onDevice (world : World) : DeviceCommand → World
  | .lifetime command => world.live command
  | .restart selfPk selfLogicalPk selfSk selfDhSk rng =>
      world.withEngine (.new selfPk selfLogicalPk selfSk selfDhSk rng)

/-- Every soft anchor whose pair has been verified before is known to be so where it is
evaluated, and none is authored. -/
def RecallsAnchors (world : World) (command : DeviceCommand) : Prop :=
  match command with
  | .lifetime (.call (.handleNode ..)) =>
      ∀ evaluation ∈ world.since (world.onDevice command),
        evaluation.Recalls (anchorKeys world.emitted)
  | .lifetime (.call (.authorNode conversationId content metadata nowMs)) =>
      ∀ key ∈ world.engine.ownAnchors world.store conversationId nowMs content metadata,
        key ∉ anchorKeys world.emitted
  | _ => True

omit [Primitives] [WireCodec] in
/-- What a step adds to the verified soft anchors. -/
theorem anchors_of_emitted {world next : World} {effects : List Effect}
    (hnodup : (anchorKeys world.emitted).Nodup) (hemitted : next.emitted = world.emitted ++ effects)
    (hkeys : (anchorKeys effects).Nodup)
    (hfresh : ∀ key ∈ anchorKeys effects, key ∉ anchorKeys world.emitted) :
    (anchorKeys next.emitted).Nodup := by
  rw [hemitted, anchorKeys_append, List.nodup_append]
  refine ⟨hnodup, hkeys, fun first hfirst second hsecond => ?_⟩
  rintro rfl
  exact hfresh _ hsecond hfirst

variable {world : World}

theorem handleNode_anchors {conversationId : ConversationId} {node : MerkleNode} {nowMs : Int}
    {fuel : Nat} (hnodup : (anchorKeys world.emitted).Nodup)
    (hrecalls : ∀ evaluation ∈ world.since (world.step (.handleNode conversationId node nowMs fuel)),
      evaluation.Recalls (anchorKeys world.emitted)) :
    (anchorKeys (world.step (.handleNode conversationId node nowMs fuel)).emitted).Nodup := by
  have hhandling := Handled.handling (world.handleNode_kept conversationId nowMs node fuel)
  obtain ⟨hevaluations, -, hemitted⟩ :=
    (world.handleNode conversationId node nowMs fuel).2.finish_eq
      (world.handleNode conversationId node nowMs fuel).1
  have hsince : world.since (world.step (.handleNode conversationId node nowMs fuel)) =
      (world.withEngine world.engine.clearPending).since
        (world.handleNode conversationId node nowMs fuel).2 := by
    rw [since, step, hevaluations]
    rfl
  rw [hsince] at hrecalls
  have hanchored := hhandling.anchored hrecalls
  refine anchors_of_emitted hnodup ?_ hanchored.nodup fun key hmem => (hanchored.fresh key hmem).1
  rw [step, hemitted, hhandling.emitted_eq]
  rfl

omit [WireCodec] in
theorem ownAnchors_nodup (engine : Engine) (store : InMemoryStore)
    (conversationId : ConversationId) (nowMs : Int) (content : Content) (metadata : Bytes) :
    (engine.ownAnchors store conversationId nowMs content metadata).Nodup := by
  unfold Engine.ownAnchors
  split
  · cases contentAnchor conversationId engine.selfPk content with
    | none => exact List.nodup_nil
    | some key => exact List.nodup_singleton key
  · split
    next => exact List.nodup_nil
    next =>
      split
      · cases ((store.adminHeads.get conversationId).getD []).head? with
        | none => exact List.nodup_nil
        | some basisHash => exact List.nodup_singleton _
      · exact List.nodup_nil

omit [WireCodec] in
/-- A call that writes none but unused pairs. -/
theorem call_anchors {keys : List AnchorKey} (hnodup : (anchorKeys world.emitted).Nodup)
    (hkeys : keys.Nodup) (hfresh : ∀ key ∈ keys, key ∉ anchorKeys world.emitted)
    (hwritten : ∀ effects, outcome.1 = .ok effects → (anchorKeys effects).Sublist keys) :
    (anchorKeys (world.call outcome).emitted).Nodup := by
  obtain ⟨error | effects, after⟩ := outcome
  · exact hnodup
  · have hsublist := hwritten effects rfl
    exact anchors_of_emitted hnodup rfl (hkeys.sublist hsublist) fun key hmem =>
      hfresh key (hsublist.subset hmem)

omit [WireCodec] in
theorem keyCall_anchors {nowMs : Int} (hnodup : (anchorKeys world.emitted).Nodup)
    (htraces : outcome.Traces world.store nowMs .keyCalls world.engine) :
    (anchorKeys (world.call outcome).emitted).Nodup := by
  refine call_anchors hnodup List.nodup_nil (fun _ hmem => absurd hmem List.not_mem_nil) ?_
  intro effects hok
  have htrace := htraces.ok (Prod.ext hok rfl)
  rw [htrace.anchorKeys_eq_nil]

/-- A step that recalls the pairs verifies no second soft anchor. -/
theorem onDevice_anchors (hnodup : (anchorKeys world.emitted).Nodup) {command : DeviceCommand}
    (hrecalls : world.RecallsAnchors command) :
    (anchorKeys (world.onDevice command).emitted).Nodup := by
  cases command with
  | restart => exact hnodup
  | lifetime command =>
      cases command with
      | load => exact hnodup
      | call command =>
          cases command with
          | handleNode => exact handleNode_anchors hnodup hrecalls
          | authorNode conversationId content metadata nowMs =>
              exact call_anchors hnodup (ownAnchors_nodup _ _ _ _ _ _) hrecalls
                (world.engine.authorNode_anchors world.store conversationId nowMs content metadata)
          | rotateConversationKey conversationId nowMs =>
              exact keyCall_anchors hnodup
                (world.engine.rotateConversationKey_trace world.store conversationId nowMs false)
          | senderRekey conversationId nowMs =>
              exact keyCall_anchors hnodup
                (world.engine.senderRekey_trace world.store conversationId nowMs)
          | storeWire conversationId nodeHash wire =>
              refine anchors_of_emitted hnodup rfl List.nodup_nil fun key hmem => ?_
              exact absurd hmem List.not_mem_nil

/-- In every run with restarts whose steps recall the pairs, at most one soft anchor of a device on
a basis is verified in a conversation. -/
theorem run_anchorsOnce (engine : Engine) (commands : List DeviceCommand)
    (hrecalls : RunMeets onDevice RecallsAnchors (.new engine) commands) :
    (anchorKeys (runFrom onDevice (.new engine) commands).emitted).Nodup :=
  hrecalls.invariant (fun world => (anchorKeys world.emitted).Nodup)
    (fun _ _ hnodup hstep => onDevice_anchors hnodup hstep) List.nodup_nil

end World

/-! ## A second anchor behind a restart -/

namespace SoftAnchors

open Reference OnceApplied

/-- The founder anchors itself on the first node. -/
def anchor (seq : Nat) : MerkleNode :=
  sign
    { parents := [hash genesis]
      authorPk := ⟨1⟩
      senderPk := ⟨1⟩
      sequenceNumber := BitVec.ofNat 64 seq
      topologicalRank := 1
      networkTimestamp := 1000
      content := .control (.softAnchor (hash genesis) (certificate ⟨1⟩))
      metadata := []
      authentication := .ephemeralSignature ⟨0⟩
      powNonce := 0 }

def handling (node : MerkleNode) : DeviceCommand := .lifetime (.call (arrival node))

def reboot : DeviceCommand := .restart ⟨5⟩ ⟨5⟩ none none ⟨2, 0⟩

def loading : DeviceCommand := .lifetime (.load room 1000)

/-- A restart forgets no anchor as long as none is evaluated behind it. -/
theorem run_anchorsOnce_genesis :
    RunMeets World.onDevice World.RecallsAnchors (.new observer.engine)
        [handling genesis, handling (anchor 2), reboot, loading] ∧
      (anchorKeys (runFrom World.onDevice (.new observer.engine)
        [handling genesis, handling (anchor 2), reboot, loading]).emitted).Nodup := by
  have hunused : anchorKeys ((World.new observer.engine).onDevice (handling genesis)).emitted =
      [] := by decide +kernel
  have hrecalls : ∀ evaluation : Evaluation, evaluation.Recalls [] :=
    fun _ _ _ hused => absurd hused List.not_mem_nil
  have hmeets : RunMeets World.onDevice World.RecallsAnchors (.new observer.engine)
      [handling genesis, handling (anchor 2), reboot, loading] := by
    refine ⟨fun evaluation _ => hrecalls evaluation, fun evaluation _ => ?_, trivial, trivial,
      trivial⟩
    rw [hunused]
    exact hrecalls evaluation
  exact ⟨hmeets, World.run_anchorsOnce observer.engine _ hmeets⟩

/-- The loaded engine takes a second anchor on the same basis. -/
theorem anchored_twice :
    ¬ (anchorKeys (runFrom World.onDevice (.new observer.engine)
      [handling genesis, handling (anchor 2), reboot, loading,
        handling (anchor 3)]).emitted).Nodup := by
  decide +kernel

end SoftAnchors

end MerkleTox.Core
