import MerkleTox.Core.OverlayTracking
import MerkleTox.Core.Passages

/-! # What an evaluation applies

The side effects of a node touch the identity state, the keys and the heads, and they are
applied once for good: the engine has no way to take them back. This is when an evaluation
applies them, and when the overlay keeps track of the nodes that have had their turn: the
node is verified by the same evaluation, and nothing else loses its mark.
-/

namespace MerkleTox.Core

open Library Proto

namespace Engine

variable [Primitives]

variable (engine : Engine) (store : InMemoryStore) (conversationId : ConversationId)

/-- An evaluation applies something of the node: its keys are taken, its certificate is
recorded, or its side effects are carried out. -/
def applies (node : MerkleNode) (nowMs : Int) : Bool :=
  match engine.vet store conversationId node nowMs with
  | (.error _, _) => false
  | (.ok assessment, engine) =>
      engine.stainsRefused conversationId node assessment ||
        (!engine.refuses store conversationId node assessment &&
          !engine.stainsRejected store conversationId node assessment &&
          ((engine.judgement store conversationId node assessment).1 ||
            (engine.isAuthentic store conversationId node && node.isBootstrap)))

/-- The side effects of the node rotate the conversation key. -/
def rotatesFor (ctx : CausalContext) (conversationId : ConversationId) (node : MerkleNode)
    (nowMs : Int) : Bool :=
  match node.content with
  | .control (.revokeDevice target _) =>
      node.senderPk = engine.selfPk &&
        (engine.withIdentity (engine.identityManager.revokeDevice conversationId node.senderPk
          node.authorPk target node.topologicalRank node.networkTimestamp
          (hash node))).holdsAdmin ctx conversationId nowMs node.topologicalRank
  | .control .handshakePulse =>
      (engine.highestHandledPulse.get (conversationId, node.senderPk)).getD 0 <
          node.topologicalRank &&
        engine.holdsAdmin ctx conversationId nowMs node.topologicalRank &&
        engine.rotationDue conversationId nowMs
  | _ => false

/-- The re-check after a change of the authorizations takes back a verified node. -/
def demotes (node : MerkleNode) (nowMs : Int) : Bool :=
  changesAuthorization node.content &&
    match engine.applySideEffects (rotateConversationKey store conversationId nowMs) store
        conversationId node nowMs with
    | (.error _, _) => false
    | (.ok _, engine) =>
        !(engine.revalidateAllVerifiedNodes store conversationId nowMs).1.isEmpty

/-- The node is verified and its side effects neither fail, nor rotate the key, nor take
back other nodes. -/
def settlesCalmly (node : MerkleNode) (assessment : Assessment) (nowMs : Int) : Bool :=
  let recorded := engine.recorded store conversationId node assessment nowMs
  (engine.judgement store conversationId node assessment).1 &&
    !engine.stainsRejected store conversationId node assessment &&
    !recorded.rotatesFor (recorded.causalContext store node).1 conversationId node nowMs &&
    !recorded.demotes store conversationId node nowMs

/-- What the evaluation applies goes together with the verification of the node. -/
def calm (node : MerkleNode) (nowMs : Int) : Bool :=
  !engine.applies store conversationId node nowMs ||
    match engine.vet store conversationId node nowMs with
    | (.error _, _) => true
    | (.ok assessment, engine) =>
        engine.settlesCalmly store conversationId node assessment nowMs

end Engine

/-! ## Heads and marks -/

def InMemoryStore.trackHeads (store : InMemoryStore) (conversationId : ConversationId)
    (isAdmin : Bool) : List NodeHash :=
  if isAdmin then (store.adminHeads.get conversationId).getD []
  else (store.heads.get conversationId).getD []

def Overlay.trackHeads (overlay : Overlay) (conversationId : ConversationId) (isAdmin : Bool) :
    List NodeHash :=
  if isAdmin then overlay.getAdminHeads conversationId else overlay.getHeads conversationId

/-- The track that a node belongs to. -/
def MerkleNode.isAdmin (node : MerkleNode) : Bool := node.nodeType = .admin

/-- The heads of every track after a node of a conversation. -/
def enterHeads [Primitives] (heads : ConversationId → Bool → List NodeHash)
    (conversationId : ConversationId) (node : MerkleNode) :
    ConversationId → Bool → List NodeHash :=
  fun other isAdmin =>
    if other = conversationId ∧ isAdmin = node.isAdmin then
      Engine.nextHeads (heads other isAdmin) node
    else heads other isAdmin

namespace InMemoryStore

variable [Primitives] (store : InMemoryStore)

theorem applyEffects_nil : store.applyEffects [] = store := rfl

theorem applyEffects_append (first second : List Effect) :
    store.applyEffects (first ++ second) = (store.applyEffects first).applyEffects second :=
  List.foldl_append

theorem applyEffect_isVerified (effect : Effect) (nodeHash : NodeHash) :
    (store.applyEffect effect).isVerified nodeHash =
      match effect with
      | .writeStore _ node verified =>
          if nodeHash = hash node then verified else store.isVerified nodeHash
      | _ => store.isVerified nodeHash := by
  cases effect with
  | writeStore conversationId node verified => exact isVerified_putNode store node verified _
  | updateHeads conversationId heads isAdmin => cases isAdmin <;> rfl
  | _ => rfl

theorem applyEffect_trackHeads (effect : Effect) (conversationId : ConversationId)
    (isAdmin : Bool) :
    (store.applyEffect effect).trackHeads conversationId isAdmin =
      match effect with
      | .updateHeads written heads track =>
          if conversationId = written ∧ isAdmin = track then heads
          else store.trackHeads conversationId isAdmin
      | _ => store.trackHeads conversationId isAdmin := by
  cases effect with
  | writeStore written node verified => cases verified <;> rfl
  | updateHeads written heads track =>
      cases track <;> cases isAdmin <;>
        simp [applyEffect, trackHeads, AssocMap.get_insert, apply_ite (Option.getD · [])]
  | _ => rfl

theorem applyEffects_private {effects : List Effect}
    (hprivate : ∀ effect ∈ effects, effect.isPrivate = true) :
    (store.applyEffects effects).isVerified = store.isVerified ∧
      (store.applyEffects effects).trackHeads = store.trackHeads := by
  induction effects generalizing store with
  | nil => exact ⟨rfl, rfl⟩
  | cons effect rest ih =>
      have hrest := ih (store.applyEffect effect)
        fun effect hmem => hprivate effect (List.mem_cons_of_mem _ hmem)
      have hfirst := hprivate effect List.mem_cons_self
      refine ⟨hrest.1.trans ?_, hrest.2.trans ?_⟩
      · funext nodeHash
        rw [applyEffect_isVerified]
        split
        · cases hfirst
        · rfl
      · funext conversationId isAdmin
        rw [applyEffect_trackHeads]
        split
        · cases hfirst
        · rfl

end InMemoryStore

/-! ## Changes that keep heads and marks -/

/-- The heads stay, and no node loses its mark. -/
structure PendingCache.Grows (before after : PendingCache) : Prop where
  verified : before.verified ⊆ after.verified
  heads : after.heads = before.heads
  adminHeads : after.adminHeads = before.adminHeads

namespace PendingCache.Grows

variable {before middle after : PendingCache} (cache : PendingCache)

theorem refl : Grows cache cache := ⟨List.Subset.refl _, rfl, rfl⟩

theorem of_eq (heq : after = before) : Grows before after := heq ▸ refl before

theorem trans (hfirst : Grows before middle) (hsecond : Grows middle after) :
    Grows before after where
  verified _ hmem := hsecond.verified (hfirst.verified hmem)
  heads := hsecond.heads.trans hfirst.heads
  adminHeads := hsecond.adminHeads.trans hfirst.adminHeads

theorem of_looked {engine looked : Engine} (hlooked : Looked engine looked) :
    Grows engine.pendingCache looked.pendingCache := by
  obtain ⟨distances, ancestors, searches, paths, equivocations, rfl⟩ := hlooked
  exact ⟨List.Subset.refl _, rfl, rfl⟩

variable (conversationId : ConversationId)

theorem putNode [Primitives]
    (node : MerkleNode) (verified : Bool) :
    Grows cache (cache.putNode conversationId node verified) := by
  unfold PendingCache.putNode
  simp only
  split
  · exact ⟨fun _ hmem => mem_insertOnce.mpr (.inl hmem), rfl, rfl⟩
  · exact ⟨List.Subset.refl _, rfl, rfl⟩

theorem markVerified
    (nodeHash : NodeHash) : Grows cache (cache.markVerified conversationId nodeHash) := by
  unfold PendingCache.markVerified
  simp only
  split <;> exact ⟨fun _ hmem => mem_insertOnce.mpr (.inl hmem), rfl, rfl⟩

theorem noteReverified [Primitives]
    (node : MerkleNode) : Grows cache (cache.noteReverified conversationId node) :=
  ⟨fun _ hmem => mem_insertOnce.mpr (.inl hmem), rfl, rfl⟩

theorem trackHeads {store : InMemoryStore} (hgrows : Grows before after) :
    Overlay.trackHeads ⟨store, after⟩ = Overlay.trackHeads ⟨store, before⟩ := by
  funext conversationId isAdmin
  simp only [Overlay.trackHeads, Overlay.getAdminHeads, Overlay.getHeads, hgrows.heads,
    hgrows.adminHeads]

end PendingCache.Grows

namespace Engine

variable [Primitives] (engine : Engine) (store : InMemoryStore)
variable (conversationId : ConversationId) (node : MerkleNode) (nowMs : Int)

theorem verifyNode_grows :
    engine.pendingCache.Grows
      (engine.verifyNode store conversationId node nowMs).2.pendingCache := by
  have hchecked : engine.pendingCache.Grows (engine.checkStructure store node).2.pendingCache :=
    .of_looked checkStructure_looked
  unfold verifyNode
  split
  next heq =>
    rw [heq] at hchecked
    exact hchecked
  next checked heq =>
    rw [heq] at hchecked
    have hauthorized : engine.pendingCache.Grows
        (checked.authorization store conversationId node).2.2.pendingCache :=
      hchecked.trans (.of_looked authorization_looked)
    simp only
    split
    · exact hauthorized.trans (.markVerified _ conversationId (hash node))
    · exact hauthorized

theorem revalidateNodes_grows (nodes : List MerkleNode) :
    engine.pendingCache.Grows
      (engine.revalidateNodes store conversationId nowMs nodes).2.pendingCache := by
  induction nodes generalizing engine with
  | nil => exact .refl _
  | cons node rest ih =>
      have hverified := engine.verifyNode_grows store conversationId node nowMs
      unfold revalidateNodes
      split
      next heq =>
        rw [heq] at hverified
        exact hverified.trans (ih _)
      next heq =>
        rw [heq] at hverified
        exact hverified.trans (ih _)

/-! ## Side effects without a rotation -/

variable {engine store conversationId node nowMs}
variable {effects : List Effect} {rotate : Rotation}

/-- An action that does not rotate the key has no effects and leaves the cache alone. -/
theorem applyAction_unrotated {ctx : CausalContext} {after : Engine}
    (hunrotated : engine.rotatesFor ctx conversationId node nowMs = false)
    (h : engine.applyAction rotate ctx conversationId node nowMs = (.ok effects, after)) :
    effects = [] ∧ after.pendingCache = engine.pendingCache := by
  have hestablished : ∀ (engine : Engine) f,
      (engine.modifyEstablished conversationId f).pendingCache = engine.pendingCache := by
    intro engine f
    obtain ⟨conversations, hframe⟩ := engine.modifyEstablished_frame conversationId f
    rw [hframe]
  -- Of the actions only a revocation and a handshake pulse rotate; the others touch neither the
  -- cache nor the effects.
  unfold applyAction at h
  unfold rotatesFor at hunrotated
  simp only at h
  split at h
  next =>
    cases h
    exact ⟨rfl, hestablished _ _⟩
  next =>
    unfold applyAuthorize at h
    simp only at h
    split at h
    next => cases h
    next =>
      split at h
      · cases h
        exact ⟨rfl, rfl⟩
      · cases h
        exact ⟨rfl, rfl⟩
  next hcontent =>
    simp only [hcontent] at hunrotated
    unfold applyRevoke at h
    simp only at h
    split at h
    next hrotates =>
      exact absurd hrotates (Bool.eq_false_iff.mp hunrotated)
    next =>
      cases h
      exact ⟨rfl, rfl⟩
  next =>
    cases h
    exact ⟨rfl, rfl⟩
  next =>
    cases h
    exact ⟨rfl, rfl⟩
  next =>
    cases h
    exact ⟨rfl, rfl⟩
  next =>
    cases h
    exact ⟨rfl, rfl⟩
  next =>
    cases h
    refine ⟨rfl, ?_⟩
    unfold applyAnchorSnapshot
    simp only
    split <;> rfl
  next =>
    cases h
    exact ⟨rfl, rfl⟩
  next hcontent =>
    simp only [hcontent] at hunrotated
    unfold applyHandshakePulse at h
    simp only at h
    split at h
    next hrotates => exact absurd hrotates (Bool.eq_false_iff.mp hunrotated)
    next =>
      cases h
      exact ⟨rfl, rfl⟩
  next =>
    cases h
    refine ⟨rfl, ?_⟩
    unfold applyDistribution
    refine (hestablished _ _).trans ?_
    split <;> rfl
  next =>
    cases h
    exact ⟨rfl, rfl⟩

variable (engine conversationId node nowMs) in
theorem advanceRatchet_quiet :
    (∀ effect ∈ (engine.advanceRatchet conversationId node nowMs).1, effect.isPrivate = true) ∧
      (engine.advanceRatchet conversationId node nowMs).2.pendingCache = engine.pendingCache := by
  unfold advanceRatchet
  split
  · exact ⟨fun _ hmem => absurd hmem List.not_mem_nil, rfl⟩
  next em _ =>
    split
    · exact ⟨fun _ hmem => absurd hmem List.not_mem_nil, rfl⟩
    · exact ⟨advanceEstablished_private conversationId node nowMs em, rfl⟩

variable (engine store conversationId node) in
theorem updateHeads_enters :
    (engine.updateHeads store conversationId node).1 = [.updateHeads conversationId
        (nextHeads ((engine.overlay store).trackHeads conversationId node.isAdmin) node)
        node.isAdmin] ∧
      ((engine.updateHeads store conversationId node).2.overlay store).trackHeads =
        enterHeads (engine.overlay store).trackHeads conversationId node ∧
      (engine.updateHeads store conversationId node).2.pendingCache.verified =
        engine.pendingCache.verified := by
  unfold updateHeads
  simp only
  split
  next hadmin =>
    have htrack : node.isAdmin = true := decide_eq_true hadmin
    refine ⟨by rw [htrack]; rfl, ?_, rfl⟩
    funext other isAdmin
    rw [enterHeads, htrack]
    cases isAdmin with
    | false => exact (if_neg fun h => Bool.false_ne_true h.2).symm
    | true =>
        simp only [overlay, Overlay.trackHeads, Overlay.getAdminHeads, AssocMap.get_insert,
          if_true, and_true]
        split
        next heq => rw [heq, Option.getD_some]
        next => rfl
  next hcontent =>
    have htrack : node.isAdmin = false := decide_eq_false hcontent
    refine ⟨by rw [htrack]; rfl, ?_, rfl⟩
    funext other isAdmin
    rw [enterHeads, htrack]
    cases isAdmin with
    | true => exact (if_neg fun h => Bool.false_ne_true h.2.symm).symm
    | false =>
        simp only [overlay, Overlay.trackHeads, Overlay.getHeads, AssocMap.get_insert,
          Bool.false_eq_true, if_false, and_true]
        split
        next heq => rw [heq, Option.getD_some]
        next => rfl

/-- What the side effects of a node do without a rotation. -/
structure Settles (engine : Engine) (store : InMemoryStore) (conversationId : ConversationId)
    (node : MerkleNode) (effects : List Effect) (after : Engine) : Prop where
  effects : ∃ quiet, (∀ effect ∈ quiet, effect.isPrivate = true) ∧
    effects = quiet ++ [.updateHeads conversationId
      (nextHeads ((engine.overlay store).trackHeads conversationId node.isAdmin) node)
      node.isAdmin]
  heads : (after.overlay store).trackHeads =
    enterHeads (engine.overlay store).trackHeads conversationId node
  verified : engine.pendingCache.verified ⊆ after.pendingCache.verified

theorem applySideEffects_unrotated {after : Engine}
    (hunrotated : engine.rotatesFor (engine.causalContext store node).1 conversationId node nowMs =
      false)
    (h : engine.applySideEffects rotate store conversationId node nowMs = (.ok effects, after)) :
    engine.Settles store conversationId node effects after := by
  unfold applySideEffects at h
  simp only at h
  split at h
  next => cases h
  next actionEffects acted heq =>
    have hsearched : (engine.causalContext store node).2.rotatesFor
        (engine.causalContext store node).1 conversationId node nowMs = false := hunrotated
    obtain ⟨rfl, hcache⟩ := applyAction_unrotated hsearched heq
    obtain ⟨hprivate, hadvanced⟩ := acted.advanceRatchet_quiet conversationId node nowMs
    obtain ⟨heffects, hheads, hverified⟩ := updateHeads_enters
      (acted.advanceRatchet conversationId node nowMs).2 store conversationId node
    have hsame : (acted.advanceRatchet conversationId node nowMs).2.pendingCache =
        engine.pendingCache := hadvanced.trans hcache
    have htracks : ((acted.advanceRatchet conversationId node nowMs).2.overlay store).trackHeads =
        (engine.overlay store).trackHeads := by
      rw [overlay, hsame, overlay]
    rw [htracks] at heffects hheads
    cases h
    refine ⟨⟨_, hprivate, ?_⟩, hheads, fun _ hmem => ?_⟩
    · rw [heffects, List.nil_append]
    · rw [hverified, hsame]
      exact hmem

/-- A certificate that is rejected stops the side effects. -/
theorem applySideEffects_rejected
    (hrejected : (engine.certificateVerdict (engine.causalContext store node).1 conversationId
      node).any (fun result => !result.isOk) = true) :
    ∃ error after, engine.applySideEffects rotate store conversationId node nowMs =
        (.error error, after) ∧ after.pendingCache = engine.pendingCache ∧
      after.memory = engine.memory := by
  unfold certificateVerdict at hrejected
  split at hrejected
  next cert hcontent =>
    rw [Option.any_some, Bool.not_eq_true'] at hrejected
    have hfails : ((engine.causalContext store node).2.identityManager.authorizeDevice
        (engine.causalContext store node).1 conversationId node.authorPk cert
          node.networkTimestamp node.topologicalRank (hash node)).1.isOk = false := hrejected
    obtain ⟨error, herror⟩ : ∃ error, ((engine.causalContext store
        node).2.identityManager.authorizeDevice (engine.causalContext store node).1 conversationId
          node.authorPk cert node.networkTimestamp node.topologicalRank (hash node)).1 =
            .error error := by
      revert hfails
      cases ((engine.causalContext store node).2.identityManager.authorizeDevice
        (engine.causalContext store node).1 conversationId node.authorPk cert
          node.networkTimestamp node.topologicalRank (hash node)).1 with
      | ok _ => exact fun hfails => absurd hfails Bool.noConfusion
      | error error => exact fun _ => ⟨error, rfl⟩
    refine ⟨.identity error, (engine.causalContext store node).2.withIdentity
      ((engine.causalContext store node).2.identityManager.authorizeDevice
        (engine.causalContext store node).1 conversationId node.authorPk cert
          node.networkTimestamp node.topologicalRank (hash node)).2, ?_, rfl, ?_⟩
    · simp only [applySideEffects, applyAction, hcontent, applyAuthorize, herror]
    · exact memory_rejected hfails
  next => cases hrejected

theorem settle_calm {authentic : Bool} {after : Engine}
    (hunrotated : engine.rotatesFor (engine.causalContext store node).1 conversationId node nowMs =
      false) (hkept : engine.demotes store conversationId node nowMs = false)
    (h : engine.settle store conversationId node true authentic nowMs = (.ok effects, after)) :
    engine.Settles store conversationId node effects after := by
  unfold settle at h
  rw [Bool.true_or, if_pos rfl] at h
  split at h
  next => cases h
  next kept acted heq =>
    have hsettles := applySideEffects_unrotated hunrotated heq
    split at h
    next hchanges =>
      rw [Bool.true_and] at hchanges
      simp only [demotes, hchanges, heq, Bool.true_and, Bool.not_eq_false',
        List.isEmpty_iff] at hkept
      have hgrows : acted.pendingCache.Grows
          (acted.revalidateAllVerifiedNodes store conversationId nowMs).2.pendingCache :=
        acted.revalidateNodes_grows store conversationId nowMs _
      obtain ⟨quiet, hprivate, heffects⟩ := hsettles.effects
      have hnothing : kept ++ (acted.revalidateAllVerifiedNodes store conversationId nowMs).1 =
          kept := by rw [hkept, List.append_nil]
      cases h
      refine ⟨⟨quiet, hprivate, hnothing.trans heffects⟩, ?_, ?_⟩
      · exact hgrows.trackHeads.trans hsettles.heads
      · exact fun nodeHash hmem => hgrows.verified (hsettles.verified hmem)
    next =>
      cases h
      exact hsettles

/-! ## Evaluations that apply and evaluations that do not -/

/-- An evaluation that verifies its node and applies its side effects. -/
structure CarriesOut (engine : Engine) (store : InMemoryStore) (conversationId : ConversationId)
    (node : MerkleNode) (result : Except MerkleToxError Verdict) (after : Engine) : Prop where
  effects : ∃ keys quiet verdict, (∀ effect ∈ keys, effect.isPrivate = true) ∧
    (∀ effect ∈ quiet, effect.isPrivate = true) ∧ result = .ok verdict ∧
    verdict.effects = keys ++ [.writeStore conversationId node true] ++
      (quiet ++ [.updateHeads conversationId
        (nextHeads ((engine.overlay store).trackHeads conversationId node.isAdmin) node)
        node.isAdmin])
  heads : (after.overlay store).trackHeads =
    enterHeads (engine.overlay store).trackHeads conversationId node
  verified : engine.pendingCache.verified ⊆ after.pendingCache.verified
  marked : hash node ∈ after.pendingCache.verified

/-- An evaluation that applies nothing: it leaves its node unverified, if it succeeds. -/
structure PassesOver (engine : Engine) (conversationId : ConversationId) (node : MerkleNode)
    (result : Except MerkleToxError Verdict) (after : Engine) : Prop where
  effects : ∀ verdict, result = .ok verdict → ∃ keys,
    (∀ effect ∈ keys, effect.isPrivate = true) ∧
      verdict.effects = keys ++ [.writeStore conversationId node false]
  grows : engine.pendingCache.Grows after.pendingCache

variable {assessment : Assessment}

theorem conclude_applied
    (hcalm : engine.settlesCalmly store conversationId node assessment nowMs = true) :
    engine.CarriesOut store conversationId node
      (engine.conclude store conversationId node assessment nowMs).1
      (engine.conclude store conversationId node assessment nowMs).2 := by
  simp only [settlesCalmly, Bool.and_eq_true, Bool.not_eq_true'] at hcalm
  obtain ⟨⟨⟨hverified, haccepted⟩, hunrotated⟩, hkept⟩ := hcalm
  obtain ⟨conversations, ephemeralKeys, seqs, hrecorded⟩ :=
    engine.recorded_frame store conversationId node nowMs assessment
  have hcache : (engine.recorded store conversationId node assessment nowMs).pendingCache =
      engine.pendingCache.putNode conversationId node true := by rw [hrecorded, hverified]
  have hgrows : engine.pendingCache.Grows
      (engine.recorded store conversationId node assessment nowMs).pendingCache :=
    hcache ▸ .putNode _ conversationId node true
  have hmarked : hash node ∈
      (engine.recorded store conversationId node assessment nowMs).pendingCache.verified :=
    hcache ▸ (PendingCache.mem_verified_putNode _ conversationId node true _).mpr
      (.inr ⟨rfl, rfl⟩)
  have hheads : ((engine.recorded store conversationId node assessment nowMs).overlay
      store).trackHeads = (engine.overlay store).trackHeads := hgrows.trackHeads
  have hplace : engine.refuses store conversationId node assessment = false := by
    rw [refuses, hverified]
    rfl
  rw [conclude_eq, hplace, if_neg Bool.false_ne_true, hverified]
  cases hsettle : (engine.recorded store conversationId node assessment nowMs).settle store
    conversationId node true (engine.isAuthentic store conversationId node) nowMs with
  | mk result settled =>
      cases result with
      | error error =>
          obtain ⟨happlied, hrejected⟩ := settle_error hsettle
          rw [stainsRejected_eq engine store conversationId node nowMs, hverified, hrejected]
            at haccepted
          cases haccepted
      | ok effects =>
          have hsettles := settle_calm hunrotated hkept hsettle
          obtain ⟨quiet, hprivate, heffects⟩ := hsettles.effects
          rw [hheads] at heffects
          refine ⟨⟨_, quiet, _, engine.usedKeys_private conversationId node assessment, hprivate,
            rfl, ?_⟩, ?_, ?_, hsettles.verified hmarked⟩
          · simp only [heffects]
          · exact hheads ▸ hsettles.heads
          · exact fun nodeHash hmem => hsettles.verified (hgrows.verified hmem)

theorem conclude_unapplied
    (hunapplied : engine.refuses store conversationId node assessment = true ∨
      engine.stainsRejected store conversationId node assessment = true ∨
      ((engine.judgement store conversationId node assessment).1 ||
        (engine.isAuthentic store conversationId node && node.isBootstrap)) = false) :
    engine.PassesOver conversationId node
      (engine.conclude store conversationId node assessment nowMs).1
      (engine.conclude store conversationId node assessment nowMs).2 := by
  obtain ⟨manager, conversations, consumed, restored, dedup, hjudged⟩ :=
    engine.judgement_frame store conversationId node assessment
  obtain ⟨conversations', ephemeralKeys, seqs, hrecorded⟩ :=
    engine.recorded_frame store conversationId node nowMs assessment
  have hgrows : engine.pendingCache.Grows
      (engine.recorded store conversationId node assessment nowMs).pendingCache := by
    rw [hrecorded]
    exact .putNode _ conversationId node _
  rw [conclude_eq]
  split
  next =>
    refine ⟨nofun, ?_⟩
    rw [hjudged]
    exact .refl _
  next hplace =>
    rcases hunapplied with hrefuses | hrejected | hidle
    · exact absurd hrefuses hplace
    · rw [stainsRejected_eq engine store conversationId node nowMs, Bool.and_eq_true] at hrejected
      obtain ⟨error, after, hfails, hcache, -⟩ : ∃ error after,
          (engine.recorded store conversationId node assessment nowMs).applySideEffects
            (rotateConversationKey store conversationId nowMs) store conversationId node nowMs =
              (.error error, after) ∧ after.pendingCache =
                (engine.recorded store conversationId node assessment nowMs).pendingCache ∧
              after.memory =
                (engine.recorded store conversationId node assessment nowMs).memory :=
        applySideEffects_rejected hrejected.2
      rw [settle, if_pos hrejected.1, hfails]
      exact ⟨nofun, hgrows.trans (.of_eq hcache)⟩
    · have hunverified : (engine.judgement store conversationId node assessment).1 = false :=
        (Bool.or_eq_false_iff.mp hidle).1
      rw [settle, if_neg (Bool.eq_false_iff.mp hidle)]
      refine ⟨fun verdict hverdict => ?_, hgrows⟩
      cases hverdict
      refine ⟨_, engine.usedKeys_private conversationId node assessment, ?_⟩
      rw [hunverified, List.append_nil]

theorem evaluateNode_applied (happlies : engine.applies store conversationId node nowMs = true)
    (hcalm : engine.calm store conversationId node nowMs = true) :
    engine.CarriesOut store conversationId node
      (engine.evaluateNode store conversationId node nowMs).1
      (engine.evaluateNode store conversationId node nowMs).2 := by
  have hlooked : Looked engine (engine.vet store conversationId node nowMs).2 := vet_looked
  rw [calm, happlies, Bool.not_true, Bool.false_or] at hcalm
  unfold applies at happlies
  unfold evaluateNode
  split
  next heq =>
    simp only [heq] at happlies
    cases happlies
  next assessment vetted heq =>
    simp only [heq] at hcalm
    rw [heq] at hlooked
    have hgrows : engine.pendingCache.Grows vetted.pendingCache := .of_looked hlooked
    have happlied := conclude_applied hcalm
    have hheads : (vetted.overlay store).trackHeads = (engine.overlay store).trackHeads :=
      hgrows.trackHeads
    refine ⟨?_, ?_, fun _ hmem => happlied.verified (hgrows.verified hmem), happlied.marked⟩
    · rw [← hheads]
      exact happlied.effects
    · rw [← hheads]
      exact happlied.heads

theorem idle_of_unapplied {authentic : Bool}
    (hunapplied : (engine.stainsRefused conversationId node assessment ||
      (!engine.refuses store conversationId node assessment &&
        !engine.stainsRejected store conversationId node assessment &&
        ((engine.judgement store conversationId node assessment).1 ||
          (authentic && node.isBootstrap)))) = false) :
    engine.stainsRefused conversationId node assessment = false ∧
      (engine.refuses store conversationId node assessment = true ∨
        engine.stainsRejected store conversationId node assessment = true ∨
        ((engine.judgement store conversationId node assessment).1 ||
          (authentic && node.isBootstrap)) = false) := by
  simp only [Bool.or_eq_false_iff, Bool.and_eq_false_iff, Bool.not_eq_false'] at hunapplied ⊢
  exact ⟨hunapplied.1, or_assoc.mp hunapplied.2⟩

theorem evaluateNode_unapplied
    (hunapplied : engine.applies store conversationId node nowMs = false) :
    engine.PassesOver conversationId node
      (engine.evaluateNode store conversationId node nowMs).1
      (engine.evaluateNode store conversationId node nowMs).2 := by
  have hlooked : Looked engine (engine.vet store conversationId node nowMs).2 := vet_looked
  unfold applies at hunapplied
  unfold evaluateNode
  split
  next heq =>
    rw [heq] at hlooked
    exact ⟨nofun, .of_looked hlooked⟩
  next assessment vetted heq =>
    simp only [heq] at hunapplied
    rw [heq] at hlooked
    have hidle := (idle_of_unapplied hunapplied).2
    have hgrows : engine.pendingCache.Grows vetted.pendingCache := .of_looked hlooked
    exact ⟨(conclude_unapplied hidle).effects, hgrows.trans (conclude_unapplied hidle).grows⟩

/-! ## What the effects do to a store -/

variable {result : Except MerkleToxError Verdict} {after : Engine}

/-- The store that the effects are applied to learns of the node, and its heads follow. -/
theorem CarriesOut.applyEffects (happlied : engine.CarriesOut store conversationId node result after)
    (direct : InMemoryStore) :
    (∀ nodeHash, (direct.applyEffects (evaluationEffects result)).isVerified nodeHash = true ↔
      nodeHash = hash node ∨ direct.isVerified nodeHash = true) ∧
    (direct.trackHeads = (engine.overlay store).trackHeads →
      (direct.applyEffects (evaluationEffects result)).trackHeads =
        (after.overlay store).trackHeads) := by
  obtain ⟨keys, quiet, verdict, hkeys, hquiet, rfl, heffects⟩ := happlied.effects
  obtain ⟨hkeysVerified, hkeysHeads⟩ := direct.applyEffects_private hkeys
  obtain ⟨hquietVerified, hquietHeads⟩ := ((direct.applyEffects keys).applyEffect
    (.writeStore conversationId node true)).applyEffects_private hquiet
  have happly : direct.applyEffects (evaluationEffects (.ok verdict)) =
      ((((direct.applyEffects keys).applyEffect (.writeStore conversationId node
        true)).applyEffects quiet).applyEffect (.updateHeads conversationId
          (nextHeads ((engine.overlay store).trackHeads conversationId node.isAdmin) node)
          node.isAdmin)) := by
    rw [evaluationEffects, heffects, InMemoryStore.applyEffects_append,
      InMemoryStore.applyEffects_append, InMemoryStore.applyEffects_append]
    rfl
  rw [happly]
  constructor
  · intro nodeHash
    simp only [InMemoryStore.applyEffect_isVerified, hquietVerified, hkeysVerified]
    split
    next heq => simp only [heq, true_or]
    next hne => simp only [hne, false_or]
  · intro hheads
    rw [happlied.heads]
    funext other isAdmin
    simp only [InMemoryStore.applyEffect_trackHeads, hquietHeads, hkeysHeads, hheads]
    unfold enterHeads
    split
    next heq => rw [heq.1, heq.2]
    next => rfl

theorem PassesOver.applyEffects (hunapplied : engine.PassesOver conversationId node result after)
    (direct : InMemoryStore) (hunverified : direct.isVerified (hash node) = false) :
    (direct.applyEffects (evaluationEffects result)).isVerified = direct.isVerified ∧
      (direct.applyEffects (evaluationEffects result)).trackHeads = direct.trackHeads := by
  cases result with
  | error error => exact ⟨rfl, rfl⟩
  | ok verdict =>
      obtain ⟨keys, hkeys, heffects⟩ := hunapplied.effects verdict rfl
      obtain ⟨hverified, hheads⟩ := direct.applyEffects_private hkeys
      have happly : direct.applyEffects (evaluationEffects (.ok verdict)) =
          (direct.applyEffects keys).applyEffect (.writeStore conversationId node false) := by
        rw [evaluationEffects, heffects, InMemoryStore.applyEffects_append]
        rfl
      rw [happly]
      constructor
      · funext nodeHash
        simp only [InMemoryStore.applyEffect_isVerified, hverified]
        split
        next heq => rw [heq, hunverified]
        next => rfl
      · funext other isAdmin
        simp only [InMemoryStore.applyEffect_trackHeads, hheads]

theorem CarriesOut.verifiedWrites
    (happlied : engine.CarriesOut store conversationId node result after) :
    World.verifiedWrites (evaluationEffects result) = [(conversationId, node)] := by
  obtain ⟨keys, quiet, verdict, hkeys, hquiet, rfl, heffects⟩ := happlied.effects
  rw [evaluationEffects, heffects, World.verifiedWrites_append, World.verifiedWrites_append,
    World.verifiedWrites_append, World.verifiedWrites_private hkeys,
    World.verifiedWrites_private hquiet]
  rfl

omit [Primitives] in
theorem PassesOver.verifiedWrites
    (hunapplied : engine.PassesOver conversationId node result after) :
    World.verifiedWrites (evaluationEffects result) = [] := by
  cases result with
  | error error => rfl
  | ok verdict =>
      obtain ⟨keys, hkeys, heffects⟩ := hunapplied.effects verdict rfl
      rw [evaluationEffects, heffects, World.verifiedWrites_append,
        World.verifiedWrites_private hkeys]
      rfl

end Engine

end MerkleTox.Core
