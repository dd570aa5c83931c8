import MerkleTox.Core.Evolution

/-! # What the evaluation of a node checks

`vet` decides what may go on; everything it changes is in caches and in the list of
equivocations. `Admitted` collects what holds of a node that passed it, in terms of
the engine before.
-/

namespace MerkleTox.Core

open Library Proto

/-- Only caches, the list of equivocations and the history of searches differ. -/
def Looked (before after : Engine) : Prop :=
  ∃ distances ancestors searches paths equivocations, after =
    { before with
        pendingCache := { before.pendingCache with adminDistances := distances }
        adminAncestorsCache := ancestors
        searches := searches
        identityManager := { before.identityManager with pathCache := paths }
        equivocations := equivocations }

namespace Looked

variable {before middle after : Engine}

theorem refl (engine : Engine) : Looked engine engine :=
  ⟨engine.pendingCache.adminDistances, engine.adminAncestorsCache, engine.searches,
    engine.identityManager.pathCache, engine.equivocations, rfl⟩

theorem trans (hfirst : Looked before middle) (hsecond : Looked middle after) :
    Looked before after := by
  obtain ⟨_, _, _, _, _, rfl⟩ := hfirst
  obtain ⟨distances, ancestors, searches, paths, equivocations, rfl⟩ := hsecond
  exact ⟨distances, ancestors, searches, paths, equivocations, rfl⟩

end Looked

/-- A query only touches the cache of paths. -/
theorem IdentityManager.isAuthorized_frame (manager : IdentityManager) (ctx : CausalContext)
    (conversationId : ConversationId) (devicePk : PhysicalDevicePk)
    (logicalPk : LogicalIdentityPk) (nowMs : Int) (rank : Nat) :
    ∃ paths, (manager.isAuthorized ctx conversationId devicePk logicalPk nowMs rank).2 =
      { manager with pathCache := paths } := by
  unfold isAuthorized
  split
  · exact ⟨_, rfl⟩
  · simp only
    split
    · exact ⟨_, rfl⟩
    · split <;> exact ⟨_, rfl⟩

namespace Engine

/-- The search for ancestors reads the nodes of the overlay and nothing else. -/
theorem collectAdminAncestors_congr {first second : Overlay}
    (hnodes : first.getNode = second.getNode) (fuel : Nat)
    (stack visited found : List NodeHash) (cache : LruCache NodeHash (List NodeHash)) :
    collectAdminAncestors first fuel stack visited found cache =
      collectAdminAncestors second fuel stack visited found cache := by
  induction fuel generalizing stack visited found cache with
  | zero => rfl
  | succ fuel ih =>
      cases stack with
      | nil => rfl
      | cons parent stack =>
          unfold collectAdminAncestors
          simp only [hnodes, ih]

/-- The replay check does not look at what the checks change. -/
theorem checkSequence_looked {engine looked : Engine} {store : InMemoryStore}
    {conversationId : ConversationId} {node : MerkleNode} (hlooked : Looked engine looked) :
    looked.checkSequence store conversationId node =
      engine.checkSequence store conversationId node := by
  obtain ⟨distances, ancestors, searches, paths, equivocations, rfl⟩ := hlooked
  rfl

variable [Primitives]
variable {engine : Engine} {store : InMemoryStore} {conversationId : ConversationId}
variable {node : MerkleNode} {nowMs : Int}

theorem checkStructure_looked : Looked engine (engine.checkStructure store node).2 := by
  unfold checkStructure
  simp only
  split <;> exact ⟨_, _, _, _, _, rfl⟩

theorem authorization_looked :
    Looked engine (engine.authorization store conversationId node).2.2 := by
  obtain ⟨paths, hpaths⟩ := engine.identityManager.isAuthorized_frame
    (engine.causalContext store node).1 conversationId node.senderPk node.authorPk
    node.networkTimestamp node.topologicalRank
  refine ⟨engine.pendingCache.adminDistances,
    (engine.causalContext store node).2.adminAncestorsCache,
    (engine.causalContext store node).2.searches, paths, engine.equivocations, ?_⟩
  calc (engine.authorization store conversationId node).2.2
      = (engine.causalContext store node).2.withIdentity _ := rfl
    _ = (engine.causalContext store node).2.withIdentity _ := congrArg _ hpaths
    _ = _ := rfl

variable {looked : Engine} {error : ValidationError} {assessment : Assessment}

/-- The causal context of a node does not depend on what its checks change. -/
theorem causalContext_looked (hlooked : Looked engine looked)
    (hancestors : looked.adminAncestorsCache = engine.adminAncestorsCache) :
    (looked.causalContext store node).1 = (engine.causalContext store node).1 := by
  have hnodes : (looked.overlay store).getNode = (engine.overlay store).getNode := by
    obtain ⟨distances, ancestors, searches, paths, equivocations, rfl⟩ := hlooked
    rfl
  have hbound : ancestorBound (looked.overlay store) = ancestorBound (engine.overlay store) := by
    obtain ⟨distances, ancestors, searches, paths, equivocations, rfl⟩ := hlooked
    rfl
  simp only [causalContext, searchAncestors, collectAdminAncestors_congr hnodes, hbound, hancestors]

theorem checkStructure_ancestors :
    (engine.checkStructure store node).2.adminAncestorsCache = engine.adminAncestorsCache := by
  unfold checkStructure
  simp only
  split <;> rfl

theorem checkStructure_identity :
    (engine.checkStructure store node).2.identityManager = engine.identityManager := by
  unfold checkStructure
  simp only
  split <;> rfl

/-- The sender of a node is authorized in the causal context of the node. -/
def senderAuthorized (engine : Engine) (store : InMemoryStore)
    (conversationId : ConversationId) (node : MerkleNode) : Bool :=
  (engine.authorization store conversationId node).2.1

theorem senderAuthorized_eq :
    engine.senderAuthorized store conversationId node =
      (engine.identityManager.isAuthorized (engine.causalContext store node).1 conversationId
        node.senderPk node.authorPk node.networkTimestamp node.topologicalRank).1 := rfl

theorem senderAuthorized_checkStructure :
    (engine.checkStructure store node).2.senderAuthorized store conversationId node =
      engine.senderAuthorized store conversationId node := by
  rw [senderAuthorized_eq, senderAuthorized_eq, checkStructure_identity,
    causalContext_looked checkStructure_looked checkStructure_ancestors]

/-- What holds of a node that passed the checks, in terms of the engine before them. -/
structure Admitted (engine : Engine) (store : InMemoryStore) (conversationId : ConversationId)
    (node : MerkleNode) (nowMs : Int) (assessment : Assessment) : Prop where
  ctx : assessment.ctx = (engine.causalContext store node).1
  authorized : assessment.authorized = engine.senderAuthorized store conversationId node
  quarantined : assessment.quarantined =
    engine.isQuarantined store conversationId node assessment.authorized nowMs
  structurallyValid : assessment.structurallyValid = true →
    (node.validate (engine.overlay store)).1 = .ok ()
  signature : node.validateForm = .ok () ∧ node.validateSignature = .ok ()
  sequence : assessment.authorized = true →
    engine.checkSequence store conversationId node = .ok ()

/-- A failure that leaves a node in place, unverified. -/
def isTolerated : ValidationError → Bool
  | .missingParents _ | .topologicalRankViolation .. => true
  | _ => false

theorem validateForm_error (h : node.validateForm = .error error) : isTolerated error = false := by
  unfold MerkleNode.validateForm at h
  split at h
  · cases h
    rfl
  · split at h
    · cases h
      rfl
    · simp only at h
      split at h
      · cases h
        rfl
      · split at h
        · cases h
          rfl
        · unfold MerkleNode.validateAuthentication at h
          split at h
          · cases h
          · cases h
          · split at h <;> cases h
            rfl
          · split at h
            · cases h
              rfl
            · split at h <;> cases h
              rfl

theorem validateSignature_error (h : node.validateSignature = .error error) :
    isTolerated error = false := by
  unfold MerkleNode.validateSignature at h
  split at h
  · split at h
    · cases h
      rfl
    · split at h <;> cases h
      rfl
  · cases h

/-- The form and the signature are checked before the rules whose failure is tolerated. -/
theorem validate_signature (overlay : Overlay)
    (hresult : ∀ error, (node.validate overlay).1 = .error error → isTolerated error = true) :
    node.validateForm = .ok () ∧ node.validateSignature = .ok () := by
  cases hform : node.validateForm with
  | error error =>
      have herror : (node.validate overlay).1 = .error error := by
        simp only [MerkleNode.validate, hform]
        rfl
      have hnot := validateForm_error hform
      rw [hresult error herror] at hnot
      cases hnot
  | ok _ =>
      cases hsignature : node.validateSignature with
      | error error =>
          have herror : (node.validate overlay).1 = .error error := by
            simp only [MerkleNode.validate, hform, hsignature]
            rfl
          have hnot := validateSignature_error hsignature
          rw [hresult error herror] at hnot
          cases hnot
      | ok _ => exact ⟨rfl, rfl⟩

theorem checkStructure_ok {valid : Bool} {checked : Engine}
    (h : engine.checkStructure store node = (.ok valid, checked)) :
    (node.validateForm = .ok () ∧ node.validateSignature = .ok ()) ∧
      (valid = true → (node.validate (engine.overlay store)).1 = .ok ()) := by
  unfold checkStructure at h
  simp only at h
  split at h
  next heq =>
    cases h
    refine ⟨validate_signature (engine.overlay store) fun error herror => ?_, fun _ => heq⟩
    cases heq.symm.trans herror
  next missing heq =>
    cases h
    refine ⟨validate_signature (engine.overlay store) fun error herror => ?_, fun h => nomatch h⟩
    cases heq.symm.trans herror
    rfl
  next actual expected heq =>
    cases h
    refine ⟨validate_signature (engine.overlay store) fun error herror => ?_, fun h => nomatch h⟩
    cases heq.symm.trans herror
    rfl
  next => cases h

theorem assess_looked : Looked engine (engine.assess store conversationId node nowMs).2 := by
  have hchecked : Looked engine (engine.checkStructure store node).2 := checkStructure_looked
  unfold assess
  split
  next heq =>
    rw [heq] at hchecked
    exact hchecked
  next heq =>
    rw [heq] at hchecked
    exact hchecked.trans authorization_looked

theorem recordEquivocation_looked :
    Looked engine (engine.recordEquivocation conversationId node) := by
  unfold recordEquivocation
  split
  · split
    · exact .refl engine
    · exact ⟨_, _, _, _, _, rfl⟩
  · exact .refl engine

theorem vet_looked : Looked engine (engine.vet store conversationId node nowMs).2 := by
  have hassessed : Looked engine (engine.assess store conversationId node nowMs).2 :=
    assess_looked
  unfold vet
  split
  next heq =>
    rw [heq] at hassessed
    exact hassessed
  next heq =>
    rw [heq] at hassessed
    split
    · exact hassessed
    · split
      · simp only
        split <;> exact hassessed.trans recordEquivocation_looked
      · exact hassessed

theorem isQuarantined_looked (hlooked : Looked engine looked) (authorized : Bool) :
    looked.isQuarantined store conversationId node authorized nowMs =
      engine.isQuarantined store conversationId node authorized nowMs := by
  obtain ⟨distances, ancestors, searches, paths, equivocations, rfl⟩ := hlooked
  rfl

theorem assess_ok (h : engine.assess store conversationId node nowMs = (.ok assessment, looked)) :
    assessment.ctx = (engine.causalContext store node).1 ∧
      assessment.authorized = engine.senderAuthorized store conversationId node ∧
      assessment.quarantined =
        engine.isQuarantined store conversationId node assessment.authorized nowMs ∧
      (assessment.structurallyValid = true → (node.validate (engine.overlay store)).1 = .ok ()) ∧
      node.validateForm = .ok () ∧ node.validateSignature = .ok () := by
  have hchecked : Looked engine (engine.checkStructure store node).2 := checkStructure_looked
  have hauthorized : (engine.checkStructure store node).2.senderAuthorized store conversationId
      node = engine.senderAuthorized store conversationId node := senderAuthorized_checkStructure
  have hcontext : ((engine.checkStructure store node).2.causalContext store node).1 =
      (engine.causalContext store node).1 :=
    causalContext_looked hchecked checkStructure_ancestors
  unfold assess at h
  split at h
  next => cases h
  next valid checked heq =>
    obtain ⟨hsignature, hvalid⟩ := checkStructure_ok heq
    rw [heq] at hchecked hauthorized hcontext
    cases h
    refine ⟨hcontext, hauthorized, ?_, hvalid, hsignature⟩
    exact (isQuarantined_looked (hchecked.trans authorization_looked) _)

theorem vet_ok (h : engine.vet store conversationId node nowMs = (.ok assessment, looked)) :
    Admitted engine store conversationId node nowMs assessment := by
  have hassessed : Looked engine (engine.assess store conversationId node nowMs).2 :=
    assess_looked
  unfold vet at h
  split at h
  next => cases h
  next assessed checked heq =>
    obtain ⟨hctx, hauthorized, hquarantined, hvalid, hsignature⟩ := assess_ok heq
    rw [heq] at hassessed
    split at h
    next => cases h
    next =>
      split at h
      next =>
        simp only at h
        split at h
        next => cases h
        next hsequence =>
          cases h
          refine ⟨hctx, hauthorized, hquarantined, hvalid, hsignature, fun _ => ?_⟩
          rw [checkSequence_looked (hassessed.trans recordEquivocation_looked)] at hsequence
          exact hsequence
      next hnot =>
        cases h
        exact ⟨hctx, hauthorized, hquarantined, hvalid, hsignature, fun h => absurd h hnot⟩

/-- The authentication of a node holds: its device signature, the MAC of a genesis or
its ephemeral signature under the key known for the sender. -/
def authenticationHolds (engine : Engine) (store : InMemoryStore)
    (conversationId : ConversationId) (node : MerkleNode) : Bool :=
  match node.authentication with
  | .signature signature =>
      Primitives.verify node.senderPk.bytes (Primitives.serializeForAuth node) signature
  | .ephemeralSignature _ => engine.isAuthentic store conversationId node

/-- A device signature that the rules accept has been checked. -/
theorem validateSignature_verify {signature : Ed25519Signature}
    (hauthentication : node.authentication = .signature signature)
    (hform : node.validateForm = .ok ()) (hsignature : node.validateSignature = .ok ()) :
    Primitives.verify node.senderPk.bytes (Primitives.serializeForAuth node) signature = true := by
  have hallowed : node.isDeviceAuthenticated = true := by
    have hauth : node.validateAuthentication = .ok () := by
      unfold MerkleNode.validateForm at hform
      split at hform
      · cases hform
      · split at hform
        · cases hform
        · simp only at hform
          split at hform
          · cases hform
          · split at hform
            · cases hform
            · exact hform
    unfold MerkleNode.isDeviceAuthenticated
    unfold MerkleNode.validateAuthentication at hauth
    rw [hauthentication] at hauth ⊢
    cases htype : node.nodeType with
    | admin => rfl
    | content =>
        simp only [htype] at hauth
        split at hauth
        next hallows => simp [hallows, NodeAuth.isSignature]
        next => cases hauth
  unfold MerkleNode.validateSignature at hsignature
  rw [if_pos hallowed] at hsignature
  split at hsignature
  · cases hsignature
  · split at hsignature
    · cases hsignature
    next hverified =>
      simpa [MerkleNode.verifyAdminSignature, hauthentication] using hverified

/-- What the engine takes for authentic, once admitted, is. -/
theorem Admitted.authentic (hadmitted : Admitted engine store conversationId node nowMs assessment)
    (hauthentic : engine.isAuthentic store conversationId node = true) :
    engine.authenticationHolds store conversationId node = true := by
  obtain ⟨hform, hsignature⟩ := hadmitted.signature
  unfold authenticationHolds
  split
  next heq => exact validateSignature_verify heq hform hsignature
  next => exact hauthentic

end Engine

end MerkleTox.Core
