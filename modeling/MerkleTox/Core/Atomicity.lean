import MerkleTox.Core.DeviceLimits
import MerkleTox.Core.Restart

/-! # Errors of the handling of nodes

Most errors are found before a node changes anything but caches. Two come later: too
many speculative nodes, after the keys of the node were used and its certificate was
recorded, and a rejected certificate, after the node was recorded.
-/

namespace MerkleTox.Core

open Library Proto

variable {verified authentic : Bool} {ctx : CausalContext}

/-- An engine without its caches, the nodes held for the store, the list of
equivocations and the histories that the code does not have. -/
def Engine.memory (engine : Engine) : Engine :=
  { engine with
      pendingCache := .new
      adminAncestorsCache := .new 0
      searches := []
      equivocations := []
      identityManager := { engine.identityManager with pathCache := .new 0, changes := [] } }

namespace Engine

theorem memory_looked {engine looked : Engine} (hlooked : Looked engine looked) :
    looked.memory = engine.memory := by
  obtain ⟨distances, ancestors, searches, paths, equivocations, rfl⟩ := hlooked
  rfl

theorem modifyEstablished_same {engine : Engine} {conversationId : ConversationId}
    {f : Established → Established}
    (hsame : ∀ em, engine.establishedState conversationId = some em → f em = em) :
    engine.modifyEstablished conversationId f = engine := by
  unfold modifyEstablished
  split
  next em hstate =>
    rw [hsame em hstate, setConversation,
      AssocMap.insert_of_get (get_of_establishedState hstate)]
  next => rfl

theorem modifyEstablished_frame (engine : Engine) (conversationId : ConversationId)
    (f : Established → Established) :
    ∃ conversations, engine.modifyEstablished conversationId f =
      { engine with conversations := conversations } := by
  unfold modifyEstablished
  split <;> exact ⟨_, rfl⟩

theorem dedupSoftAnchor_unverified {engine : Engine} {conversationId : ConversationId}
    {node : MerkleNode}
    (hunverified : (engine.dedupSoftAnchor conversationId node verified).1 = false) :
    (engine.dedupSoftAnchor conversationId node verified).2 = engine := by
  unfold dedupSoftAnchor at hunverified ⊢
  split
  next hcontent =>
    simp only [hcontent] at hunverified ⊢
    split
    next => rfl
    next hverified =>
      rw [if_neg hverified] at hunverified
      split
      next => rfl
      next hnew =>
        rw [if_neg hnew] at hunverified
        cases hunverified
  next => rfl

variable [Primitives]

/-! ## Traces of a node -/

/-- An entry of a key wrap for this device that uses up a one-time pre-key or opens. -/
def takesWrap (engine : Engine) (conversationId : ConversationId) (node : MerkleNode)
    (ephemeralPk : EphemeralX25519Pk) (wrapped : WrappedKey) : Bool :=
  wrapped.recipientPk = engine.selfPk &&
    !engine.opkCollisionLost conversationId node engine.consumedOpkIds wrapped.opkId &&
    (wrapped.opkId ≠ .zero ||
      (engine.unwrapSecrets.findSome? fun secret => eciesUnwrap32 secret ephemeralPk
        (engine.findOpkSk wrapped.opkId) none wrapped.ciphertext).isSome)

/-- The node carries a conversation key or a sender key that this device takes. -/
def takesKeys (engine : Engine) (conversationId : ConversationId) (node : MerkleNode) : Bool :=
  match node.content with
  | .keyWrap _ _ ephemeralPk wrappedKeys =>
      wrappedKeys.any (engine.takesWrap conversationId node ephemeralPk)
  | .senderKeyDistribution ephemeralPk wrappedKeys _ _ =>
      (engine.establishedState conversationId).isSome &&
        (engine.unwrapDistribution node ephemeralPk wrappedKeys).any fun (payload, _) =>
          payload.length = 72 || payload.length = 32
  | _ => false

/-- What the identity state says of the certificate that a node carries. -/
def certificateVerdict (engine : Engine) (ctx : CausalContext) (conversationId : ConversationId)
    (node : MerkleNode) : Option (Except IdentityError Unit) :=
  match node.content with
  | .control (.authorizeDevice cert) =>
      some (engine.identityManager.authorizeDevice ctx conversationId node.authorPk cert
        node.networkTimestamp node.topologicalRank (hash node)).1
  | _ => none

/-- The decision about a node that passed the checks. -/
def judgement (engine : Engine) (store : InMemoryStore) (conversationId : ConversationId)
    (node : MerkleNode) (assessment : Assessment) : Bool × Engine :=
  let keys := engine.usedKeys conversationId node assessment
  keys.engine.judge conversationId node assessment
    (keys.engine.isAuthentic store conversationId node)

/-- The node is not verified, and there are too many speculative nodes. -/
def refuses (engine : Engine) (store : InMemoryStore) (conversationId : ConversationId)
    (node : MerkleNode) (assessment : Assessment) : Bool :=
  !(engine.judgement store conversationId node assessment).1 &&
    maxSpeculativeNodesPerConversation ≤ (engine.overlay store).speculativeCount

/-- A node that will be refused has left its keys or its certificate behind. -/
def stainsRefused (engine : Engine) (conversationId : ConversationId) (node : MerkleNode)
    (assessment : Assessment) : Bool :=
  (assessment.authorized && engine.takesKeys conversationId node) ||
  (!assessment.authorized && !assessment.quarantined && !assessment.structurallyValid &&
    (engine.certificateVerdict assessment.ctx conversationId node).any Except.isOk)

/-- A node is recorded, and the certificate that it carries is rejected after that. -/
def stainsRejected (engine : Engine) (store : InMemoryStore) (conversationId : ConversationId)
    (node : MerkleNode) (assessment : Assessment) : Bool :=
  let (verified, judged) := engine.judgement store conversationId node assessment
  let stored := { engine with
    pendingCache := engine.pendingCache.putNode conversationId node verified }
  (verified || (engine.isAuthentic store conversationId node && node.isBootstrap)) &&
    (judged.certificateVerdict (stored.causalContext store node).1 conversationId node).any
      fun result => !result.isOk

/-- The engine that carries out the side effects of a node: the node is stored and recorded. -/
def recorded (engine : Engine) (store : InMemoryStore) (conversationId : ConversationId)
    (node : MerkleNode) (assessment : Assessment) (nowMs : Int) : Engine :=
  let keys := engine.usedKeys conversationId node assessment
  let (verified, judged) := engine.judgement store conversationId node assessment
  recordNode { judged with
      pendingCache := judged.pendingCache.putNode conversationId node verified }
    conversationId node keys.opkIds verified (engine.isAuthentic store conversationId node) nowMs

/-- A node that passes the checks fails after it has left a trace. -/
def stains (engine : Engine) (store : InMemoryStore) (conversationId : ConversationId)
    (node : MerkleNode) (nowMs : Int) : Bool :=
  match engine.vet store conversationId node nowMs with
  | (.error _, _) => false
  | (.ok assessment, engine) =>
      if engine.refuses store conversationId node assessment then
        engine.stainsRefused conversationId node assessment
      else engine.stainsRejected store conversationId node assessment

/-! ## Refused nodes -/

variable {engine : Engine} {store : InMemoryStore} {conversationId : ConversationId}
variable {node : MerkleNode} {nowMs : Int} {assessment : Assessment}

/-- Entries that the device does not take are passed over. -/
theorem unwrapKConv_untaken {ephemeralPk : EphemeralX25519Pk} {wrappedKeys : List WrappedKey}
    (huntaken : wrappedKeys.any (engine.takesWrap conversationId node ephemeralPk) = false) :
    engine.unwrapKConv conversationId node ephemeralPk wrappedKeys engine.consumedOpkIds =
      (none, engine.consumedOpkIds) := by
  induction wrappedKeys with
  | nil => rfl
  | cons wrapped rest ih =>
      rw [List.any_cons, Bool.or_eq_false_iff] at huntaken
      obtain ⟨hfirst, hrest⟩ := huntaken
      unfold unwrapKConv
      split
      next => exact ih hrest
      next htried =>
        simp only [Bool.or_eq_true, decide_eq_true_eq, not_or, ne_eq, not_not,
          Bool.not_eq_true] at htried
        simp only [takesWrap, htried.1, htried.2, decide_true, Bool.not_false, Bool.true_and,
          Bool.or_eq_false_iff, decide_eq_false_iff_not, ne_eq, not_not,
          Option.isSome_eq_false_iff, Option.isNone_iff_eq_none] at hfirst
        rw [if_pos hfirst.1]
        simp only [hfirst.2]
        exact ih hrest

/-- Keys that the device does not take change nothing. -/
theorem processKeys_untaken (huntaken : engine.takesKeys conversationId node = false) :
    (engine.processKeys conversationId node).engine = engine := by
  unfold takesKeys at huntaken
  unfold processKeys
  split
  next hcontent =>
    simp only [hcontent] at huntaken
    simp only [processKeyWrap, unwrapKConv_untaken huntaken]
  next hcontent =>
    simp only [hcontent] at huntaken
    split
    next => rfl
    next payload opkId hpayload =>
      refine modifyEstablished_same fun em hstate => ?_
      simp only [hstate, hpayload, Option.isSome_some, Bool.true_and, Option.any_some,
        Bool.or_eq_false_iff, decide_eq_false_iff_not] at huntaken
      rw [Established.seedSender, if_neg huntaken.1, if_neg huntaken.2]
  next => split <;> rfl
  next => rfl

/-- A certificate that is rejected leaves no trace. -/
theorem memory_rejected {logicalPk : LogicalIdentityPk} {cert : DelegationCertificate} {rank : Nat}
    {authHash : NodeHash}
    (hrejected : (engine.identityManager.authorizeDevice ctx conversationId logicalPk cert nowMs
      rank authHash).1.isOk = false) :
    (engine.withIdentity (engine.identityManager.authorizeDevice ctx conversationId logicalPk
      cert nowMs rank authHash).2).memory = engine.memory := by
  rcases engine.identityManager.authorizeDevice_cases conversationId ctx logicalPk cert nowMs
      rank authHash with
    ⟨-, record, -, hresult⟩ | ⟨-, ⟨error, hresult⟩ | ⟨-, -, record, -, hresult⟩⟩
  · rw [hresult] at hrejected
    cases hrejected
  · rw [hresult]
    rfl
  · rw [hresult] at hrejected
    cases hrejected

/-- The decision leaves nothing behind but a certificate that is accepted although the
node is not valid. -/
theorem decideVerified_memory
    (hcertificate : assessment.authorized = false → assessment.quarantined = false →
      assessment.structurallyValid = false →
        (engine.certificateVerdict assessment.ctx conversationId node).any Except.isOk = false) :
    (engine.decideVerified conversationId node assessment authentic).2.memory =
      engine.memory := by
  unfold decideVerified
  split
  next => rfl
  next hquarantined =>
    split
    next => rfl
    next hgeneric =>
      split
      next => rfl
      next hauthorized =>
        rw [Bool.not_eq_true] at hquarantined hgeneric hauthorized
        unfold judgeCertificate
        split
        next cert hcontent =>
          -- The generic path is open to authorizations, so the node is not valid.
          have hinvalid : assessment.structurallyValid = false := by
            simpa [skipsGenericPath, hcontent, hauthorized] using hgeneric
          have hverdict := hcertificate hauthorized hquarantined hinvalid
          simp only [certificateVerdict, hcontent, Option.any_some] at hverdict
          exact memory_rejected hverdict
        next => rfl
        next => rfl
        next => rfl

variable {after : Engine} {error : MerkleToxError}

theorem storeNode_error
    (h : engine.storeNode store conversationId node verified = (.error error, after)) :
    after = engine := by
  unfold storeNode at h
  split at h
  next =>
    cases h
    rfl
  next => cases h

theorem storeNode_ok (h : engine.storeNode store conversationId node verified = (.ok (), after)) :
    after = { engine with
      pendingCache := engine.pendingCache.putNode conversationId node verified } := by
  unfold storeNode at h
  split at h
  next => cases h
  next =>
    cases h
    rfl

/-! ## What keys and decisions touch -/

variable (engine conversationId node assessment)

theorem usedKeys_frame : ∃ conversations consumed restored,
    (engine.usedKeys conversationId node assessment).engine =
      { engine with
          conversations := conversations
          consumedOpkIds := consumed
          trustRestoredDevices := restored } := by
  unfold usedKeys processKeys
  split
  · split
    next =>
      unfold processKeyWrap
      simp only
      split <;> exact ⟨_, _, _, rfl⟩
    next =>
      split
      next => exact ⟨_, _, _, rfl⟩
      next =>
        obtain ⟨conversations, hframe⟩ := engine.modifyEstablished_frame conversationId _
        exact ⟨conversations, _, _, hframe⟩
    next => split <;> exact ⟨_, _, _, rfl⟩
    next => exact ⟨_, _, _, rfl⟩
  · exact ⟨_, _, _, rfl⟩

theorem judge_frame (authentic : Bool) : ∃ manager dedup,
    (engine.judge conversationId node assessment authentic).2 =
      { engine with identityManager := manager, softAnchorDedup := dedup } := by
  have hdecided : ∃ manager, (engine.decideVerified conversationId node assessment authentic).2 =
      { engine with identityManager := manager } := by
    unfold decideVerified judgeCertificate
    split
    · exact ⟨_, rfl⟩
    · split
      · exact ⟨_, rfl⟩
      · split
        · exact ⟨_, rfl⟩
        · split <;> exact ⟨_, rfl⟩
  obtain ⟨manager, hdecided⟩ := hdecided
  unfold judge
  simp only [hdecided]
  unfold dedupSoftAnchor
  split
  · simp only
    split
    · exact ⟨_, _, rfl⟩
    · split <;> exact ⟨_, _, rfl⟩
  · exact ⟨_, _, rfl⟩

variable (store nowMs) in
theorem judgement_frame : ∃ manager conversations consumed restored dedup,
    (engine.judgement store conversationId node assessment).2 =
      { engine with
          identityManager := manager
          conversations := conversations
          consumedOpkIds := consumed
          trustRestoredDevices := restored
          softAnchorDedup := dedup } := by
  obtain ⟨conversations, consumed, restored, hkeys⟩ :=
    engine.usedKeys_frame conversationId node assessment
  obtain ⟨manager, dedup, hjudged⟩ :=
    (engine.usedKeys conversationId node assessment).engine.judge_frame conversationId node
      assessment ((engine.usedKeys conversationId node assessment).engine.isAuthentic store
        conversationId node)
  refine ⟨manager, conversations, consumed, restored, dedup, ?_⟩
  rw [judgement, hjudged, hkeys]

variable (nowMs) in
theorem recordNode_frame (opkIds : List NodeHash) (verified authentic : Bool) :
    ∃ conversations ephemeralKeys seqs,
      engine.recordNode conversationId node opkIds verified authentic nowMs =
        { engine with
            conversations := conversations
            ephemeralKeys := ephemeralKeys
            verifiedNodeSeqs := seqs } := by
  have hconsumed : ∃ ephemeralKeys, opkIds.foldl consumeOpkSk engine =
      { engine with ephemeralKeys := ephemeralKeys } := by
    induction opkIds generalizing engine with
    | nil => exact ⟨_, rfl⟩
    | cons opkId rest ih =>
        have hfirst : ∃ ephemeralKeys, engine.consumeOpkSk opkId =
            { engine with ephemeralKeys := ephemeralKeys } := by
          unfold consumeOpkSk
          split
          · exact ⟨_, rfl⟩
          · split <;> exact ⟨_, rfl⟩
        obtain ⟨first, hfirst⟩ := hfirst
        rw [List.foldl_cons, hfirst]
        exact ih _
  obtain ⟨keys, hkeys⟩ := hconsumed
  unfold recordNode
  rw [hkeys]
  unfold noteVerifiedSeq vouchParents
  split <;> split <;> exact ⟨_, _, _, rfl⟩

variable {engine conversationId node assessment}

/-! ## Rejected certificates -/

theorem applyAction_error {rotate : Rotation}
    (h : engine.applyAction rotate ctx conversationId node nowMs = (.error error, after)) :
    (engine.certificateVerdict ctx conversationId node).any (fun result => !result.isOk) =
      true := by
  unfold applyAction at h
  simp only at h
  split at h
  next => cases h
  next cert hcontent =>
    simp only [certificateVerdict, hcontent, Option.any_some, Bool.not_eq_true']
    unfold applyAuthorize at h
    simp only at h
    split at h
    next heq => rw [heq]; rfl
    next => split at h <;> cases h
  all_goals cases h

theorem settle_error
    (h : engine.settle store conversationId node verified authentic nowMs = (.error error, after)) :
    (verified || (authentic && node.isBootstrap)) = true ∧
      (engine.certificateVerdict (engine.causalContext store node).1 conversationId node).any
        (fun result => !result.isOk) = true := by
  unfold settle at h
  split at h
  next happlied =>
    refine ⟨happlied, ?_⟩
    split at h
    next heq =>
      unfold applySideEffects at heq
      simp only at heq
      split at heq
      next heq' =>
        have hrejected := applyAction_error heq'
        exact hrejected
      next => cases heq
    next => split at h <;> cases h
  next => cases h

/-! ## Errors -/

theorem judge_unverified
    (hunverified : (engine.judge conversationId node assessment authentic).1 = false) :
    (engine.judge conversationId node assessment authentic).2 =
      (engine.decideVerified conversationId node assessment authentic).2 :=
  dedupSoftAnchor_unverified hunverified

/-- A node that is refused for the number of speculative nodes leaves nothing behind
unless it took keys or its certificate was accepted. -/
theorem judgement_unstained
    (hunverified : (engine.judgement store conversationId node assessment).1 = false)
    (hunstained : engine.stainsRefused conversationId node assessment = false) :
    (engine.judgement store conversationId node assessment).2.memory = engine.memory := by
  unfold stainsRefused at hunstained
  rw [Bool.or_eq_false_iff] at hunstained
  obtain ⟨hkeys, hcertificate⟩ := hunstained
  have hunused : (engine.usedKeys conversationId node assessment).engine = engine := by
    unfold usedKeys
    split
    next hauthorized =>
      rw [hauthorized, Bool.true_and] at hkeys
      exact processKeys_untaken hkeys
    next => rfl
  unfold judgement at hunverified ⊢
  simp only [hunused] at hunverified ⊢
  rw [judge_unverified hunverified]
  refine decideVerified_memory fun hauthorized hquarantined hinvalid => ?_
  simpa [hauthorized, hquarantined, hinvalid] using hcertificate

variable (engine store conversationId node nowMs assessment) in
theorem conclude_eq : engine.conclude store conversationId node assessment nowMs =
    if engine.refuses store conversationId node assessment then
      (.error (.validation .tooManySpeculativeNodes),
        (engine.judgement store conversationId node assessment).2)
    else
      match (engine.recorded store conversationId node assessment nowMs).settle store
          conversationId node (engine.judgement store conversationId node assessment).1
          (engine.isAuthentic store conversationId node) nowMs with
      | (.error error, engine) => (.error error, engine)
      | (.ok effects, settled) =>
          (.ok ⟨(engine.judgement store conversationId node assessment).1,
            engine.isAuthentic store conversationId node,
            (engine.usedKeys conversationId node assessment).effects ++
              [.writeStore conversationId node
                (engine.judgement store conversationId node assessment).1] ++ effects⟩,
            settled) := by
  obtain ⟨manager, conversations, consumed, restored, dedup, hjudged⟩ :=
    engine.judgement_frame store conversationId node assessment
  have hplace : (!(engine.judgement store conversationId node assessment).1 &&
      decide (maxSpeculativeNodesPerConversation ≤ ((engine.judgement store conversationId node
        assessment).2.overlay store).speculativeCount)) =
          engine.refuses store conversationId node assessment := by
    rw [hjudged]
    rfl
  have hconclude : engine.conclude store conversationId node assessment nowMs =
      (engine.judgement store conversationId node assessment).2.commit store conversationId node
        (engine.usedKeys conversationId node assessment).effects
        (engine.usedKeys conversationId node assessment).opkIds
        (engine.judgement store conversationId node assessment).1
        ((engine.usedKeys conversationId node assessment).engine.isAuthentic store
          conversationId node) nowMs := rfl
  rw [hconclude, isAuthentic_usedKeys, commit, storeNode, hplace]
  cases engine.refuses store conversationId node assessment with
  | true => rfl
  | false => rfl

variable (engine store conversationId node nowMs assessment) in
/-- Recording a node marks it as the decision says and keeps the heads. -/
theorem recorded_frame : ∃ conversations ephemeralKeys seqs,
    engine.recorded store conversationId node assessment nowMs =
      { (engine.judgement store conversationId node assessment).2 with
          pendingCache := engine.pendingCache.putNode conversationId node
            (engine.judgement store conversationId node assessment).1
          conversations := conversations
          ephemeralKeys := ephemeralKeys
          verifiedNodeSeqs := seqs } := by
  obtain ⟨manager, conversations, consumed, restored, dedup, hjudged⟩ :=
    engine.judgement_frame store conversationId node assessment
  have hcache : (engine.judgement store conversationId node assessment).2.pendingCache =
      engine.pendingCache := by rw [hjudged]
  unfold recorded
  simp only [hcache]
  exact recordNode_frame _ conversationId node nowMs _ _ _

variable (engine store conversationId node nowMs assessment) in
theorem stainsRejected_eq : engine.stainsRejected store conversationId node assessment =
    (((engine.judgement store conversationId node assessment).1 ||
        (engine.isAuthentic store conversationId node && node.isBootstrap)) &&
      ((engine.recorded store conversationId node assessment nowMs).certificateVerdict
        ((engine.recorded store conversationId node assessment nowMs).causalContext store node).1
        conversationId node).any fun result => !result.isOk) := by
  obtain ⟨manager, conversations, consumed, restored, dedup, hjudged⟩ :=
    engine.judgement_frame store conversationId node assessment
  obtain ⟨conversations', ephemeralKeys, seqs, hrecorded⟩ :=
    engine.recorded_frame store conversationId node nowMs assessment
  unfold stainsRejected
  simp only
  rw [hrecorded, hjudged]
  rfl

/-- A node that passes the checks and then fails leaves nothing behind unless it stains. -/
theorem conclude_error
    (h : engine.conclude store conversationId node assessment nowMs = (.error error, after))
    (hrefused : engine.refuses store conversationId node assessment = true →
      engine.stainsRefused conversationId node assessment = false)
    (hrejected : engine.refuses store conversationId node assessment = false →
      engine.stainsRejected store conversationId node assessment = false) :
    after.memory = engine.memory := by
  -- Two ways to fail: the overlay refuses the node, or its side effects fail after it was stored.
  rw [conclude_eq] at h
  split at h
  next hrefuses =>
    cases h
    have hunverified : (engine.judgement store conversationId node assessment).1 = false := by
      rw [refuses, Bool.and_eq_true, Bool.not_eq_true'] at hrefuses
      exact hrefuses.1
    exact judgement_unstained hunverified (hrefused hrefuses)
  next hplace =>
    split at h
    next heq =>
      have hstained := settle_error heq
      rw [← Bool.and_eq_true, ← stainsRejected_eq engine store conversationId node nowMs,
        hrejected (Bool.eq_false_iff.mpr hplace)] at hstained
      cases hstained
    next => cases h

theorem evaluateNode_error
    (h : engine.evaluateNode store conversationId node nowMs = (.error error, after))
    (hunstained : engine.stains store conversationId node nowMs = false) :
    after.memory = engine.memory := by
  have hlooked : Looked engine (engine.vet store conversationId node nowMs).2 := vet_looked
  unfold evaluateNode at h
  unfold stains at hunstained
  split at h
  next heq =>
    cases h
    rw [heq] at hlooked
    exact memory_looked hlooked
  next assessment vetted heq =>
    rw [heq] at hlooked
    simp only [heq] at hunstained
    rw [← memory_looked hlooked]
    refine conclude_error h (fun hrefuses => ?_) fun hrefuses => ?_
    · rwa [if_pos hrefuses] at hunstained
    · rwa [if_neg (by rw [hrefuses]; exact Bool.false_ne_true)] at hunstained

end Engine

/-! ## Lifetimes -/

namespace World

variable [Primitives] [WireCodec]

/-- The commands of a lifetime, each with the world that it finds. -/
def history (world : World) : List LifetimeCommand → List (World × LifetimeCommand)
  | [] => []
  | command :: rest => (world, command) :: (world.live command).history rest

/-- Only a node that stains fails after it has left a trace. -/
theorem handleNode_error {world after : World} {conversationId : ConversationId}
    {node : MerkleNode} {nowMs : Int} {fuel : Nat} {error : MerkleToxError}
    (h : world.handleNode conversationId node nowMs fuel = (.error error, after))
    (hunstained : world.engine.clearPending.stains world.store conversationId node nowMs =
      false) :
    after.engine.memory = world.engine.memory := by
  unfold handleNode at h
  simp only at h
  split at h
  next => cases h
  next =>
    split at h
    next heq =>
      cases h
      unfold evaluate at heq
      simp only [Prod.mk.injEq] at heq
      obtain ⟨hresult, rfl⟩ := heq
      have hsame := Engine.evaluateNode_error (Prod.ext hresult rfl) hunstained
      exact hsame
    next => cases h

/-- No call of a lifetime handles a node that stains. -/
def Unstained (world : World) : LifetimeCommand → Bool
  | .call (.handleNode conversationId node nowMs _) =>
      !world.engine.clearPending.stains world.store conversationId node nowMs
  | _ => true

end World

/-- In every lifetime without such nodes, a call that handles a node and fails leaves the
memory of the engine as it was. -/
theorem lifetime_errors_atomic [Primitives] [WireCodec] (selfPk : PhysicalDevicePk)
    (selfLogicalPk : LogicalIdentityPk) (selfSk : Option SigningKey)
    (selfDhSk : Option EphemeralX25519Sk) (rng : Rng) (store : InMemoryStore)
    (commands : List LifetimeCommand)
    (hunstained : ∀ moment ∈ World.history
      ⟨.new selfPk selfLogicalPk selfSk selfDhSk rng, store, [], []⟩ commands,
      moment.1.Unstained moment.2 = true) :
    ∀ world conversationId node nowMs fuel error after,
      (world, .call (.handleNode conversationId node nowMs fuel)) ∈ World.history
        ⟨.new selfPk selfLogicalPk selfSk selfDhSk rng, store, [], []⟩ commands →
      world.handleNode conversationId node nowMs fuel = (.error error, after) →
        after.engine.memory = world.engine.memory := by
  intro world conversationId node nowMs fuel error after hmem herror
  have hclean := hunstained _ hmem
  rw [World.Unstained, Bool.not_eq_true'] at hclean
  exact World.handleNode_error herror hclean

namespace Atomicity

/-! ## An authorization without a valid certificate -/

open Reference

/-- An observer with keys of its own. -/
def start : World := ⟨.new ⟨5⟩ ⟨5⟩ none none ⟨1, 0⟩, .new, [], []⟩

/-- The founder authorizes a device with a certificate that nobody signed. -/
def forged : MerkleNode :=
  sign
    { parents := [hash genesis]
      authorPk := ⟨1⟩
      senderPk := ⟨1⟩
      sequenceNumber := 2
      topologicalRank := 1
      networkTimestamp := 1000
      content := .control (.authorizeDevice { certificate ⟨50⟩ with signature := ⟨0⟩ })
      metadata := []
      authentication := .ephemeralSignature ⟨0⟩
      powNonce := 0 }

/-- The same without the signature of the founder's device. -/
def unsigned : MerkleNode := { forged with authentication := .signature ⟨0⟩ }

def arrival (node : MerkleNode) : LifetimeCommand := .call (.handleNode room node 1000 1)

/-- The observer after the genesis. -/
def founded : World := start.live (arrival genesis)

/-- Without a signature the node fails in the checks. -/
theorem lifetime_errors_atomic_unsigned :
    ∃ error after, founded.handleNode room unsigned 1000 1 = (.error error, after) ∧
      after.engine.memory = founded.engine.memory := by
  have hunstained : ∀ moment ∈ start.history [arrival genesis, arrival unsigned],
      moment.1.Unstained moment.2 = true := by decide +kernel
  have hmem : (founded, arrival unsigned) ∈
      start.history [arrival genesis, arrival unsigned] :=
    List.mem_cons_of_mem _ List.mem_cons_self
  have hfails : (founded.handleNode room unsigned 1000 1).1.isOk = false := by decide +kernel
  cases heq : founded.handleNode room unsigned 1000 1 with
  | mk result after =>
      rw [heq] at hfails
      cases result with
      | ok effects => cases hfails
      | error error =>
          refine ⟨error, after, rfl, ?_⟩
          exact lifetime_errors_atomic ⟨5⟩ ⟨5⟩ none none ⟨1, 0⟩ .new
            [arrival genesis, arrival unsigned] hunstained founded room unsigned 1000 1 error after
            hmem heq

/-- With it the node passes the checks and is recorded before its certificate is rejected. -/
theorem forged_recorded :
    ∃ error after, (founded, arrival forged) ∈ start.history [arrival genesis, arrival forged] ∧
      founded.handleNode room forged 1000 1 = (.error error, after) ∧
        after.engine.memory ≠ founded.engine.memory := by
  have hfails : (founded.handleNode room forged 1000 1).1.isOk = false := by decide +kernel
  have hbefore : founded.engine.memory.verifiedNodeSeqs.get (room, ⟨1⟩, 2) = none := by
    decide +kernel
  have hafter : (founded.handleNode room forged 1000 1).2.engine.memory.verifiedNodeSeqs.get
      (room, ⟨1⟩, 2) = some (hash forged) := by decide +kernel
  cases heq : founded.handleNode room forged 1000 1 with
  | mk result after =>
      rw [heq] at hfails hafter
      cases result with
      | ok effects => cases hfails
      | error error =>
          refine ⟨error, after, List.mem_cons_of_mem _ List.mem_cons_self, rfl, fun hsame => ?_⟩
          rw [hsame, hbefore] at hafter
          cases hafter

end Atomicity

end MerkleTox.Core
