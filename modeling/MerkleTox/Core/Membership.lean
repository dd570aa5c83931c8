import MerkleTox.Core.Reference
import MerkleTox.Core.Runs

/-! # Membership

Who is authorized: a device with a chain of delegation records to the logical
identity it speaks for. The cache of paths only remembers such chains. That the
identity is a member of the conversation is not asked, so an identity that nobody
invited authorizes its own devices, above all the one whose key is its own.
-/

namespace MerkleTox.Core

open Library Proto Relation

/-! ## Chains of authorizations -/

/-- A chain of delegation records from a device to a logical identity. -/
inductive AuthChain (manager : IdentityManager) (conversationId : ConversationId)
    (logicalPk : LogicalIdentityPk) : PhysicalDevicePk → Prop
  | master : AuthChain manager conversationId logicalPk logicalPk.toPhysical
  | link {devicePk : PhysicalDevicePk} {record : AuthRecord}
      (hrecord : record ∈ manager.recordsOf conversationId devicePk)
      (hlogical : record.logicalPk = logicalPk)
      (hissuer : AuthChain manager conversationId logicalPk record.issuerPk) :
      AuthChain manager conversationId logicalPk devicePk

def IdentityChange.adds (conversationId : ConversationId) (logicalPk : LogicalIdentityPk) :
    IdentityChange → Bool
  | .addMember conversation member _ _ => conversation = conversationId && member = logicalPk
  | _ => false

/-- The identity was made a member, by a genesis, an invitation or an anchor snapshot. -/
def IdentityManager.everMember (manager : IdentityManager) (conversationId : ConversationId)
    (logicalPk : LogicalIdentityPk) : Bool :=
  manager.changes.any (IdentityChange.adds conversationId logicalPk)

/-- A chain that ends at a member. -/
def MemberChain (manager : IdentityManager) (conversationId : ConversationId)
    (devicePk : PhysicalDevicePk) (logicalPk : LogicalIdentityPk) : Prop :=
  AuthChain manager conversationId logicalPk devicePk ∧
    manager.everMember conversationId logicalPk = true

variable {manager manager' : IdentityManager} {conversationId : ConversationId}
variable {logicalPk : LogicalIdentityPk} {devicePk : PhysicalDevicePk}

theorem AuthChain.mono (hchain : AuthChain manager conversationId logicalPk devicePk)
    (hrecords : ∀ conversationId devicePk, manager.recordsOf conversationId devicePk ⊆
      manager'.recordsOf conversationId devicePk) :
    AuthChain manager' conversationId logicalPk devicePk := by
  induction hchain with
  | master => exact .master
  | link hrecord hlogical _ ih => exact .link (hrecords _ _ hrecord) hlogical ih

/-- A device without records is authorized only as the identity itself. -/
theorem not_authChain_of_no_records (hne : devicePk ≠ logicalPk.toPhysical)
    (hnone : manager.recordsOf conversationId devicePk = []) :
    ¬ AuthChain manager conversationId logicalPk devicePk := by
  intro hchain
  cases hchain with
  | master => exact hne rfl
  | link hrecord hlogical hissuer =>
      rw [hnone] at hrecord
      cases hrecord

namespace IdentityManager

/-- The search finds something only through a record that is a link of a chain. -/
theorem isAuthorizedRecursive_sound {ctx : CausalContext} {nowMs expiresAt : Int}
    {rank depth : Nat}
    (h : manager.isAuthorizedRecursive ctx conversationId logicalPk nowMs rank depth devicePk =
      some expiresAt) :
    AuthChain manager conversationId logicalPk devicePk := by
  induction depth generalizing devicePk expiresAt with
  | zero => cases h
  | succ depth ih =>
      unfold isAuthorizedRecursive at h
      split at h
      next heq => exact heq ▸ .master
      next =>
        rcases exists_of_foldl_combine h with hnone | ⟨record, hrecord, hsome⟩
        · cases hnone
        · split at hsome
          next => cases hsome
          next hactive =>
            have hlogical : record.logicalPk = logicalPk := by
              simp only [recordActive, Bool.not_eq_true', Bool.not_eq_false, Bool.and_eq_true,
                decide_eq_true_eq] at hactive
              exact hactive.1.1.1.1
            split at hsome
            next hissuer => exact .link hrecord hlogical (hissuer ▸ .master)
            next =>
              rw [Option.isSome_map] at hsome
              obtain ⟨issuerExpires, hissuer⟩ := Option.isSome_iff_exists.mp hsome
              exact .link hrecord hlogical (ih hissuer)

end IdentityManager

/-! ## The cache of paths -/

/-- Every cached path is a chain. -/
def PathsSound (manager : IdentityManager) : Prop :=
  ∀ {conversationId devicePk logicalPk nodeHash expiresAt},
    ((conversationId, devicePk, logicalPk, nodeHash), expiresAt) ∈ manager.pathCache.entries →
      AuthChain manager conversationId logicalPk devicePk

variable {ctx : CausalContext}

/-- The identity manager says that a device is authorized only if it has a chain. -/
theorem PathsSound.isAuthorized (hsound : PathsSound manager) {nowMs : Int} {rank : Nat}
    (h : (manager.isAuthorized ctx conversationId devicePk logicalPk nowMs rank).1 = true) :
    AuthChain manager conversationId logicalPk devicePk := by
  unfold IdentityManager.isAuthorized at h
  split at h
  next heq => exact heq ▸ .master
  next =>
    simp only at h
    split at h
    next hcached =>
      rw [LruCache.get_fst, Option.any_eq_true] at hcached
      obtain ⟨expiresAt, hpeek, _⟩ := hcached
      exact hsound (LruCache.mem_of_peek hpeek)
    next =>
      split at h
      next expiresAt hrecursive =>
        exact IdentityManager.isAuthorizedRecursive_sound hrecursive
      next => cases h

/-- An authorization, whatever comes of it, starts from an empty cache and keeps the
records. -/
theorem authorizeDevice_spec [Primitives] (manager : IdentityManager) (ctx : CausalContext)
    (conversationId : ConversationId) (logicalPk : LogicalIdentityPk)
    (cert : DelegationCertificate) (nowMs : Int) (rank : Nat) (authHash : NodeHash) :
    (manager.authorizeDevice ctx conversationId logicalPk cert nowMs rank
        authHash).2.pathCache.entries = [] ∧
      ∀ conversation devicePk, manager.recordsOf conversation devicePk ⊆
        (manager.authorizeDevice ctx conversationId logicalPk cert nowMs rank
          authHash).2.recordsOf conversation devicePk := by
  have hpush : ∀ (manager : IdentityManager) devicePk record conversation other,
      manager.recordsOf conversation other ⊆
        (manager.pushRecord conversationId devicePk record).recordsOf conversation other := by
    intro manager devicePk record conversation other old hmem
    simp only [IdentityManager.recordsOf, IdentityManager.pushRecord, AssocMap.get_insert]
    split
    next heq =>
      cases heq
      simp only [Option.getD_some]
      by_cases hpresent : (manager.recordsOf conversationId devicePk).contains record = true
      · exact (if_pos hpresent).symm ▸ hmem
      · exact (if_neg hpresent).symm ▸ List.mem_append_left _ hmem
    next => exact hmem
  unfold IdentityManager.authorizeDevice
  simp only
  split
  · exact ⟨rfl, fun _ _ => List.Subset.refl _⟩
  · split
    · exact ⟨rfl, hpush _ _ _⟩
    · split
      · exact ⟨rfl, fun _ _ => List.Subset.refl _⟩
      · split
        · exact ⟨rfl, fun _ _ => List.Subset.refl _⟩
        · split
          · exact ⟨rfl, fun _ _ => List.Subset.refl _⟩
          · split
            · exact ⟨rfl, fun _ _ => List.Subset.refl _⟩
            · split
              · exact ⟨rfl, fun _ _ => List.Subset.refl _⟩
              · exact ⟨rfl, hpush _ _ _⟩

/-- A query adds at most the path it found. -/
theorem mem_isAuthorized_pathCache {nowMs : Int} {rank : Nat} {entry : PathKey × Int}
    (hmem : entry ∈
      (manager.isAuthorized ctx conversationId devicePk logicalPk nowMs rank).2.pathCache.entries) :
    entry ∈ manager.pathCache.entries ∨
      (entry.1 = (conversationId, devicePk, logicalPk, ctx.evaluatingNodeHash) ∧
        AuthChain manager conversationId logicalPk devicePk) := by
  unfold IdentityManager.isAuthorized at hmem
  split at hmem
  next => exact .inl hmem
  next =>
    simp only at hmem
    split at hmem
    next => exact .inl (LruCache.mem_get hmem)
    next =>
      split at hmem
      next expiresAt hrecursive =>
        rcases LruCache.mem_put hmem with heq | ⟨hold, _⟩
        · exact .inr ⟨heq ▸ rfl, IdentityManager.isAuthorizedRecursive_sound hrecursive⟩
        · exact .inl (LruCache.mem_get hold)
      next => exact .inl (LruCache.mem_get hmem)

theorem PathsSound.step [Primitives] (hsound : PathsSound manager)
    (hstep : IdentityStep manager manager') : PathsSound manager' := by
  intro conversation device logical nodeHash expiresAt hmem
  cases hstep with
  | addMember | dropMember => exact (hsound hmem).mono fun _ _ => List.Subset.refl _
  | authorize ctx conversationId logicalPk cert nowMs rank authHash =>
      rw [(authorizeDevice_spec manager ctx conversationId logicalPk cert nowMs rank
        authHash).1] at hmem
      cases hmem
  | revoke => cases hmem
  | query ctx conversationId devicePk logicalPk nowMs rank =>
      obtain ⟨paths, heq⟩ := manager.isAuthorized_frame ctx conversationId devicePk logicalPk
        nowMs rank
      have hchain : AuthChain manager conversation logical device := by
        rcases mem_isAuthorized_pathCache hmem with hold | ⟨hkey, hchain⟩
        · exact hsound hold
        · cases hkey
          exact hchain
      refine hchain.mono fun _ _ => ?_
      rw [heq]
      exact List.Subset.refl _

theorem PathsSound.run [Primitives] (hsound : PathsSound manager)
    (hrun : IdentityRun manager manager') : PathsSound manager' := by
  induction hrun with
  | refl => exact hsound
  | tail _ hstep ih => exact ih.step hstep

/-! ## What nodes administer -/

/-- Control actions and distributions of sender keys act on the state of the engine
also when nothing is unwrapped from them. -/
def Content.isAdministrative : Content → Bool
  | .control _ | .senderKeyDistribution .. => true
  | _ => false

/-- Everything that the actions of nodes change: identity, anchors, pre-keys and signing
keys, and the keys and flags of conversations. -/
structure Administration where
  authorizedDevices : AssocMap DeviceKey (List AuthRecord)
  logicalMembers : AssocMap MemberKey (Nat × Int)
  revokedDevices : AssocMap DeviceKey (List RevocationRecord)
  latestAnchorHashes : AssocMap ConversationId NodeHash
  peerAnnouncements : AssocMap PhysicalDevicePk Announcement
  peerEphemeralSigningKeys : AssocMap (PhysicalDevicePk × Nat) EphemeralSigningPk
  highestHandledPulse : AssocMap (ConversationId × PhysicalDevicePk) Nat
  selfCerts : AssocMap ConversationId DelegationCertificate
  trustRestoredDevices : AssocMap (ConversationId × PhysicalDevicePk) Int
  keys : ConversationId → Option (AssocMap Nat KConv × Nat ×
    AssocMap (PhysicalDevicePk × Nat) SenderKey × AssocMap (PhysicalDevicePk × Nat) HeaderKey)
  genesisFlags : ConversationId → BitVec 64

def Engine.administration (engine : Engine) : Administration where
  authorizedDevices := engine.identityManager.authorizedDevices
  logicalMembers := engine.identityManager.logicalMembers
  revokedDevices := engine.identityManager.revokedDevices
  latestAnchorHashes := engine.latestAnchorHashes
  peerAnnouncements := engine.peerAnnouncements
  peerEphemeralSigningKeys := engine.peerEphemeralSigningKeys
  highestHandledPulse := engine.highestHandledPulse
  selfCerts := engine.selfCerts
  trustRestoredDevices := engine.trustRestoredDevices
  keys conversationId := (engine.establishedState conversationId).map fun em =>
    (em.epochs, em.currentEpoch, em.senderKeys, em.jitHeaders)
  genesisFlags conversationId :=
    ((engine.conversations.get conversationId).map Conversation.genesisFlags).getD 0

theorem Looked.administration {before after : Engine} (hlooked : Looked before after) :
    after.administration = before.administration := by
  obtain ⟨distances, ancestors, searches, paths, equivocations, rfl⟩ := hlooked
  rfl

namespace Engine

/-- Operations on the conversations alone. -/
theorem administration_of_conversations {before after : Engine}
    (hrest : after = { before with conversations := after.conversations })
    (hkeys : ∀ conversationId, (after.establishedState conversationId).map
        (fun em => (em.epochs, em.currentEpoch, em.senderKeys, em.jitHeaders)) =
      (before.establishedState conversationId).map
        fun em => (em.epochs, em.currentEpoch, em.senderKeys, em.jitHeaders))
    (hflags : ∀ conversationId,
      ((after.conversations.get conversationId).map Conversation.genesisFlags).getD 0 =
        ((before.conversations.get conversationId).map Conversation.genesisFlags).getD 0) :
    after.administration = before.administration := by
  have hkeys := funext hkeys
  have hflags := funext hflags
  simp only [administration, hkeys, hflags]
  rw [hrest]

variable (engine : Engine) (store : InMemoryStore) (conversationId : ConversationId)
variable (node : MerkleNode) (nowMs : Int)

theorem openConversation_administration :
    (engine.openConversation conversationId).administration = engine.administration := by
  refine administration_of_conversations rfl (fun other => ?_) (fun other => ?_)
  · simp only [establishedState, openConversation]
    by_cases heq : other = conversationId
    · subst heq
      rw [AssocMap.get_orInsert_self]
      cases engine.conversations.get other <;> rfl
    · rw [AssocMap.get_orInsert_of_ne _ _ heq]
  · simp only [openConversation]
    by_cases heq : other = conversationId
    · subst heq
      rw [AssocMap.get_orInsert_self]
      cases engine.conversations.get other <;> rfl
    · rw [AssocMap.get_orInsert_of_ne _ _ heq]

/-- A change of vouchers alone. -/
theorem modifyVouchers_administration (f : Vouchers → Vouchers) :
    (engine.modifyConversation conversationId fun conversation =>
      conversation.setVouchers (f conversation.vouchers)).administration =
        engine.administration := by
  refine administration_of_conversations rfl (fun other => ?_) (fun other => ?_)
  · simp only [establishedState, modifyConversation]
    by_cases heq : other = conversationId
    · subst heq
      rw [AssocMap.get_modify_self]
      cases engine.conversations.get other with
      | none => rfl
      | some conversation => cases conversation <;> rfl
    · rw [AssocMap.get_modify_of_ne _ _ heq]
  · simp only [modifyConversation]
    by_cases heq : other = conversationId
    · subst heq
      rw [AssocMap.get_modify_self]
      cases engine.conversations.get other with
      | none => rfl
      | some conversation => cases conversation <;> rfl
    · rw [AssocMap.get_modify_of_ne _ _ heq]

/-- The ratchets may move while the keys of the conversation stay. -/
theorem setEstablished_administration {em em' : Established}
    (hstate : engine.establishedState conversationId = some em)
    (hkeys : (em'.epochs, em'.currentEpoch, em'.senderKeys, em'.jitHeaders) =
      (em.epochs, em.currentEpoch, em.senderKeys, em.jitHeaders))
    (hflags : em'.genesisFlags = em.genesisFlags) :
    (engine.setConversation conversationId (.established em')).administration =
      engine.administration := by
  have hget := get_of_establishedState hstate
  refine administration_of_conversations rfl (fun other => ?_) (fun other => ?_)
  · by_cases heq : other = conversationId
    · subst heq
      rw [hstate]
      simp only [establishedState, setConversation, AssocMap.get_insert_self]
      exact congrArg some hkeys
    · simp only [establishedState, setConversation, AssocMap.get_insert_of_ne _ _ heq]
  · by_cases heq : other = conversationId
    · subst heq
      rw [hget]
      simp only [setConversation, AssocMap.get_insert_self]
      exact hflags
    · simp only [setConversation, AssocMap.get_insert_of_ne _ _ heq]

variable [Primitives]

theorem recordNode_administration (verified authentic : Bool) :
    (engine.recordNode conversationId node [] verified authentic nowMs).administration =
      engine.administration := by
  have hnote : ∀ engine : Engine,
      (engine.noteVerifiedSeq conversationId node verified).administration =
        engine.administration := by
    intro engine
    unfold noteVerifiedSeq
    split <;> rfl
  have hvouch : ∀ engine : Engine,
      (engine.vouchParents conversationId node authentic nowMs).administration =
        engine.administration := by
    intro engine
    unfold vouchParents
    split
    · exact engine.modifyVouchers_administration conversationId
        fun vouchers => node.parents.foldl (vouchFor node.senderPk nowMs) vouchers
    · rfl
  rw [recordNode, hnote, hvouch]
  exact engine.openConversation_administration conversationId

theorem advanceRatchet_administration :
    (engine.advanceRatchet conversationId node nowMs).2.administration =
      engine.administration := by
  unfold advanceRatchet
  split
  next => rfl
  next em hstate =>
    split
    · exact engine.setEstablished_administration conversationId hstate rfl rfl
    · obtain ⟨kept, ratchets, history, hframe⟩ :=
        advanceEstablished_frame conversationId node nowMs em
      simp only [hframe]
      exact engine.setEstablished_administration conversationId hstate rfl rfl

theorem storeNode_administration (verified : Bool) :
    (engine.storeNode store conversationId node verified).2.administration =
      engine.administration := by
  unfold storeNode
  split <;> rfl

variable {engine store conversationId node nowMs}

/-- The side effects of a content that administers nothing. -/
theorem applySideEffects_administration {rotate : Rotation}
    (hcontent : node.content.isAdministrative = false) :
    (engine.applySideEffects rotate store conversationId node nowMs).2.administration =
      engine.administration := by
  have haction : ∀ (engine : Engine) ctx,
      engine.applyAction rotate ctx conversationId node nowMs = (.ok [], engine) := by
    intro engine ctx
    unfold applyAction
    cases hkind : node.content with
    | control action | senderKeyDistribution => rw [hkind] at hcontent; cases hcontent
    | _ => rfl
  have hheads : ∀ engine : Engine,
      (engine.updateHeads store conversationId node).2.administration =
        engine.administration := by
    intro engine
    unfold updateHeads
    simp only
    split <;> rfl
  unfold applySideEffects
  simp only [haction]
  rw [hheads, advanceRatchet_administration]
  rfl

variable {verified authentic : Bool} {assessment : Assessment}

theorem settle_administration (hcontent : node.content.isAdministrative = false ∨
      verified = false ∧ node.isBootstrap = false) :
    (engine.settle store conversationId node verified authentic nowMs).2.administration =
      engine.administration := by
  unfold settle
  rcases hcontent with hcontent | ⟨rfl, hkind⟩
  · split
    next =>
      have hside : (engine.applySideEffects (rotateConversationKey store conversationId nowMs)
          store conversationId node nowMs).2.administration = engine.administration :=
        applySideEffects_administration hcontent
      have hchanges : changesAuthorization node.content = false := by
        cases hnode : node.content with
        | control action => rw [hnode] at hcontent; cases hcontent
        | _ => rfl
      split
      next heq =>
        rw [heq] at hside
        exact hside
      next heq =>
        rw [heq] at hside
        simp only [hchanges, Bool.and_false, Bool.false_eq_true, if_false]
        exact hside
    next => rfl
  · rw [hkind, Bool.and_false, Bool.or_false]
    rfl

theorem judge_quarantined {authentic : Bool} (hquarantined : assessment.quarantined = true) :
    engine.judge conversationId node assessment authentic = (false, engine) := by
  unfold judge decideVerified dedupSoftAnchor
  simp only [hquarantined, if_true]
  split <;> rfl

/-- Judging a node that carries no certificate only decides. -/
theorem judge_plain {authentic : Bool} (hcontent : node.content.isAdministrative = false) :
    (engine.judge conversationId node assessment authentic).2 = engine := by
  have hdedup : ∀ verified, engine.dedupSoftAnchor conversationId node verified =
      (verified, engine) := by
    intro verified
    unfold dedupSoftAnchor
    cases hnode : node.content with
    | control action => rw [hnode] at hcontent; cases hcontent
    | _ => rfl
  have hcertificate : engine.judgeCertificate conversationId node assessment =
      (false, engine) := by
    unfold judgeCertificate
    cases hnode : node.content with
    | control action => rw [hnode] at hcontent; cases hcontent
    | _ => rfl
  have hdecide : (engine.decideVerified conversationId node assessment authentic).2 = engine := by
    unfold decideVerified
    split
    · rfl
    · split
      · rfl
      · split
        · rfl
        · rw [hcertificate]
  simp only [judge, hdecide, hdedup]

theorem commit_administration {keyEffects : List Effect}
    (hcontent : node.content.isAdministrative = false ∨
      verified = false ∧ node.isBootstrap = false) :
    (engine.commit store conversationId node keyEffects [] verified authentic
      nowMs).2.administration = engine.administration := by
  have hstore := engine.storeNode_administration store conversationId node verified
  unfold commit
  split
  next heq =>
    rw [heq] at hstore
    exact hstore
  next stored heq =>
    rw [heq] at hstore
    have hsettle : ((stored.recordNode conversationId node [] verified authentic nowMs).settle
        store conversationId node verified authentic nowMs).2.administration = _ :=
      settle_administration hcontent
    rw [recordNode_administration, hstore] at hsettle
    split <;>
    next heq =>
      rw [heq] at hsettle
      exact hsettle

/-- A node of an unauthorized sender that administers nothing, or that waits and is of
no bootstrap kind, administers nothing. -/
theorem conclude_administration (hunauthorized : assessment.authorized = false)
    (hcontent : node.content.isAdministrative = false ∨
      assessment.quarantined = true ∧ node.isBootstrap = false) :
    (engine.conclude store conversationId node assessment nowMs).2.administration =
      engine.administration := by
  have hkeys : engine.usedKeys conversationId node assessment = ⟨[], [], engine⟩ := by
    simp [usedKeys, hunauthorized]
  unfold conclude
  simp only [hkeys]
  rcases hcontent with hcontent | ⟨hquarantined, hkind⟩
  · rw [commit_administration (.inl hcontent), judge_plain hcontent]
  · rw [judge_quarantined hquarantined]
    exact commit_administration (.inr ⟨rfl, hkind⟩)

/-- A waiting node is not verified. -/
theorem conclude_quarantined {verdict : Verdict} (hquarantined : assessment.quarantined = true)
    (h : (engine.conclude store conversationId node assessment nowMs).1 = .ok verdict) :
    verdict.verified = false := by
  unfold conclude at h
  simp only [judge_quarantined hquarantined] at h
  exact (commit_verdict _ store conversationId node nowMs h).1

end Engine

/-! ## Membership soundness -/

/-- The change makes someone a member of the conversation. -/
def IdentityChange.addsTo (conversationId : ConversationId) : IdentityChange → Bool
  | .addMember conversation _ _ _ => conversation = conversationId
  | _ => false

namespace Evaluation

/-- A genesis that opens a conversation without members. -/
def founds (evaluation : Evaluation) : Bool :=
  evaluation.node.content.isGenesis &&
    !evaluation.before.identityManager.changes.any
      (IdentityChange.addsTo evaluation.conversationId)

/-- The node founds nothing, and no chain leads from its sender to a member that is its
author. -/
def Foreign (evaluation : Evaluation) : Prop :=
  evaluation.founds = false ∧
    ¬ MemberChain evaluation.before.identityManager evaluation.conversationId
      evaluation.node.senderPk evaluation.node.authorPk

variable [Primitives]

/-- The sender has no chain to the author, member or not, and a control action or a
distribution is of no bootstrap kind and has no voucher. -/
def WithoutAuthority (evaluation : Evaluation) : Prop :=
  ¬ AuthChain evaluation.before.identityManager evaluation.conversationId
    evaluation.node.authorPk evaluation.node.senderPk ∧
  (evaluation.node.content.isAdministrative = true →
    evaluation.node.isBootstrap = false ∧
      evaluation.before.vouchCount evaluation.conversationId (hash evaluation.node) <
        vouchThreshold)

/-- The node is not verified as a node of an authorized sender, not at all if it
administers, and it changes nothing that nodes administer. -/
structure Excluded (evaluation : Evaluation) : Prop where
  unauthorized : ∀ verdict, evaluation.result = .ok verdict → verdict.verified = true →
    evaluation.before.senderAuthorized evaluation.store evaluation.conversationId
      evaluation.node = false
  unverified : evaluation.node.content.isAdministrative = true →
    ∀ verdict, evaluation.result = .ok verdict → verdict.verified = false
  unapplied : evaluation.after.administration = evaluation.before.administration

theorem Coherent.excluded {evaluation : Evaluation} (hcoherent : evaluation.Coherent)
    (hsound : PathsSound evaluation.before.identityManager)
    (hwithout : evaluation.WithoutAuthority) : evaluation.Excluded := by
  obtain ⟨hchain, hkind⟩ := hwithout
  have hunauthorized : evaluation.before.senderAuthorized evaluation.store
      evaluation.conversationId evaluation.node = false := by
    rw [← Bool.not_eq_true]
    exact fun h => hchain (hsound.isAuthorized h)
  have hlooked : Looked evaluation.before (evaluation.before.vet evaluation.store
    evaluation.conversationId evaluation.node evaluation.nowMs).2 := Engine.vet_looked
  unfold Coherent Engine.evaluateNode at hcoherent
  split at hcoherent
  next error looked heq =>
    rw [heq] at hlooked
    obtain ⟨hresult, hafter⟩ := Prod.mk.injEq .. ▸ hcoherent
    refine ⟨fun _ _ _ => hunauthorized, fun _ verdict hverdict => ?_, ?_⟩
    · cases hresult.trans hverdict
    · rw [← hafter]
      exact hlooked.administration
  next assessment looked heq =>
    have hadmitted := Engine.vet_ok heq
    rw [heq] at hlooked
    have hassessed : assessment.authorized = false := hadmitted.authorized.trans hunauthorized
    have hquarantined : evaluation.node.content.isAdministrative = true →
        assessment.quarantined = true := by
      intro hadministers
      obtain ⟨hbootstrap, hvouchers⟩ := hkind hadministers
      rw [hadmitted.quarantined, hassessed, Engine.isQuarantined, hbootstrap]
      simp [hvouchers]
    have hresult := congrArg Prod.fst hcoherent
    have hafter := congrArg Prod.snd hcoherent
    simp only at hresult hafter
    refine ⟨fun _ _ _ => hunauthorized, fun hadministers verdict hverdict => ?_, ?_⟩
    · exact Engine.conclude_quarantined (hquarantined hadministers) (hresult.trans hverdict)
    · rw [← hafter, Engine.conclude_administration hassessed, hlooked.administration]
      cases hadministers : evaluation.node.content.isAdministrative with
      | false => exact .inl rfl
      | true => exact .inr ⟨hquarantined hadministers, (hkind hadministers).1⟩

end Evaluation

/-- In every run, a node without a chain to a member is excluded, as long as such nodes
come from senders without any chain and, if they administer, are of no bootstrap kind
and not vouched for. -/
theorem run_membership_sound [Primitives] [WireCodec] (selfPk : PhysicalDevicePk)
    (selfLogicalPk : LogicalIdentityPk) (selfSk : Option SigningKey)
    (selfDhSk : Option EphemeralX25519Sk) (rng : Rng) (commands : List Command)
    (hwithout : ∀ evaluation ∈ ((World.new (.new selfPk selfLogicalPk selfSk selfDhSk rng)).run
      commands).evaluations, evaluation.Foreign → evaluation.WithoutAuthority) :
    ∀ evaluation ∈ ((World.new (.new selfPk selfLogicalPk selfSk selfDhSk rng)).run
      commands).evaluations, evaluation.Foreign → evaluation.Excluded := by
  have hsteps := (World.new (.new selfPk selfLogicalPk selfSk selfDhSk rng)).run_steps commands
  have hsound := hsteps.invariant (fun engine => PathsSound engine.identityManager)
    (fun hevolves hsound => hsound.run hevolves.identity)
    (fun hmem => nomatch hmem) (fun _ hmem => nomatch hmem)
  intro evaluation hmem hforeign
  exact (hsteps.coherent (fun _ h => nomatch h) evaluation hmem).excluded
    (hsound.2 evaluation hmem) (hwithout evaluation hmem hforeign)

namespace Membership

/-! ## A stranger in a conversation -/

open Reference

/-- An observer with keys of its own. -/
def start : World := .new (.new ⟨5⟩ ⟨5⟩ none none ⟨1, 0⟩)

/-- An identity that is not a member invites itself from one of its devices. -/
def invitation (devicePk : PhysicalDevicePk) : MerkleNode :=
  sign
    { parents := [hash genesis]
      authorPk := ⟨99⟩
      senderPk := devicePk
      sequenceNumber := 1
      topologicalRank := 1
      networkTimestamp := 1000
      content := .control (.invite ⟨⟨99⟩, 0⟩)
      metadata := []
      authentication := .ephemeralSignature ⟨0⟩
      powNonce := 0 }

def meeting (devicePk : PhysicalDevicePk) : List Command :=
  [.handleNode room genesis 1000 1, .handleNode room (invitation devicePk) 1000 1]

/-- From a device with a key of its own the invitation is excluded. -/
theorem run_membership_sound_foreign_device :
    (∀ evaluation ∈ (start.run (meeting ⟨98⟩)).evaluations,
      evaluation.Foreign → evaluation.Excluded) ∧
    (start.run (meeting ⟨98⟩)).evaluations.length = 3 := by
  refine ⟨run_membership_sound _ _ _ _ _ _ ?_, by decide +kernel⟩
  have hfacts : ∀ evaluation ∈ (start.run (meeting ⟨98⟩)).evaluations,
      evaluation.founds = true ∨
        (evaluation.node.senderPk ≠ evaluation.node.authorPk.toPhysical ∧
          evaluation.before.identityManager.recordsOf evaluation.conversationId
            evaluation.node.senderPk = []) ∧
        (evaluation.node.isBootstrap = false ∧
          evaluation.before.vouchCount evaluation.conversationId (hash evaluation.node) <
            vouchThreshold) := by decide +kernel
  intro evaluation hmem hforeign
  rcases hfacts evaluation hmem with hfounds | ⟨⟨hne, hnone⟩, hkind⟩
  · rw [hforeign.1] at hfounds
    cases hfounds
  · exact ⟨not_authChain_of_no_records hne hnone, fun _ => hkind⟩

/-- From the device whose key is the identity itself the invitation is verified as that
of an authorized sender, and the stranger is a member. -/
theorem stranger_invites_itself :
    ∃ evaluation ∈ (start.run (meeting ⟨99⟩)).evaluations,
      evaluation.Foreign ∧ ¬ evaluation.Excluded ∧
        (evaluation.after.identityManager.listMembers room).map Prod.fst = [⟨1⟩, ⟨99⟩] := by
  have hfacts : ∃ evaluation ∈ (start.run (meeting ⟨99⟩)).evaluations,
      (evaluation.founds = false ∧ evaluation.before.identityManager.everMember
        evaluation.conversationId evaluation.node.authorPk = false) ∧
      evaluation.result.toOption.any Engine.Verdict.verified = true ∧
      evaluation.before.senderAuthorized evaluation.store evaluation.conversationId
        evaluation.node = true ∧
      (evaluation.after.identityManager.listMembers room).map Prod.fst = [⟨1⟩, ⟨99⟩] := by
    decide +kernel
  obtain ⟨evaluation, hmem, ⟨hfounds, hmember⟩, hverified, hauthorized, hmembers⟩ := hfacts
  refine ⟨evaluation, hmem, ⟨hfounds, fun hchain => ?_⟩, fun hexcluded => ?_, hmembers⟩
  · rw [hchain.2] at hmember
    cases hmember
  · rcases hresult : evaluation.result with _ | verdict <;> rw [hresult] at hverified
    · cases hverified
    · rw [hexcluded.unauthorized verdict hresult hverified] at hauthorized
      cases hauthorized

end Membership

end MerkleTox.Core
