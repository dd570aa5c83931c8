import MerkleTox.Core.Runs

/-! # Verified writes

Which nodes the engine writes as verified. A call that authors writes the nodes it
authored, and handling a node writes that node, if it is judged so, and the nodes
that its side effects author. Every such node has had its identity change made.
-/

namespace MerkleTox.Core

open Library Proto

section Applied

variable [Primitives]

/-- The identity change that a node of the admin track stands for was made. -/
def Applied (manager : IdentityManager) (conversationId : ConversationId)
    (node : MerkleNode) : Prop :=
  match node.content with
  | .control (.genesis _ creatorPk _ _ createdAt _) =>
      .addMember conversationId creatorPk 0 createdAt ∈ manager.changes
  | .control (.authorizeDevice cert) =>
      ∃ ctx, .authorize ctx conversationId node.authorPk cert node.networkTimestamp
        node.topologicalRank (hash node) ∈ manager.changes
  | .control (.revokeDevice target _) =>
      .revoke conversationId node.senderPk node.authorPk target node.topologicalRank
        node.networkTimestamp (hash node) ∈ manager.changes
  | _ => True

theorem authorizeDevice_changes (manager : IdentityManager) (ctx : CausalContext)
    (conversationId : ConversationId) (logicalPk : LogicalIdentityPk)
    (cert : DelegationCertificate) (nowMs : Int) (rank : Nat) (authHash : NodeHash) :
    (manager.authorizeDevice ctx conversationId logicalPk cert nowMs rank authHash).2.changes =
      .authorize ctx conversationId logicalPk cert nowMs rank authHash :: manager.changes := by
  unfold IdentityManager.authorizeDevice
  simp only
  split
  · rfl
  · split
    · rfl
    · split
      · rfl
      · split
        · rfl
        · split
          · rfl
          · split
            · rfl
            · split <;> rfl

variable {manager manager' : IdentityManager} {outcome : Outcome}

theorem IdentityStep.changes_suffix (hstep : IdentityStep manager manager') :
    manager.changes <:+ manager'.changes := by
  cases hstep with
  | addMember | dropMember => exact List.suffix_cons _ _
  | authorize =>
      rw [authorizeDevice_changes]
      exact List.suffix_cons _ _
  | revoke => exact List.suffix_cons _ _
  | query ctx conversationId devicePk logicalPk nowMs rank =>
      obtain ⟨paths, heq⟩ := manager.isAuthorized_frame ctx conversationId devicePk logicalPk
        nowMs rank
      exact heq ▸ List.suffix_rfl

/-- Changes are only added. -/
theorem IdentityRun.changes_suffix (hrun : IdentityRun manager manager') :
    manager.changes <:+ manager'.changes := by
  induction hrun with
  | refl => exact List.suffix_rfl
  | tail _ hstep ih => exact ih.trans hstep.changes_suffix

theorem Applied.mono {conversationId : ConversationId} {node : MerkleNode}
    (happlied : Applied manager conversationId node)
    (hsuffix : manager.changes <:+ manager'.changes) : Applied manager' conversationId node := by
  unfold Applied at *
  split
  next hcontent =>
    rw [hcontent] at happlied
    exact hsuffix.subset happlied
  next hcontent =>
    rw [hcontent] at happlied
    obtain ⟨ctx, hmem⟩ := happlied
    exact ⟨ctx, hsuffix.subset hmem⟩
  next hcontent =>
    rw [hcontent] at happlied
    exact hsuffix.subset happlied
  next => trivial

/-- The verified writes among effects are of nodes authored here that took effect. -/
def OwnWrites (engine : Engine) (effects : List Effect) : Prop :=
  ∀ conversationId node, .writeStore conversationId node true ∈ effects →
    (conversationId, node) ∈ engine.authored ∧
      Applied engine.identityManager conversationId node

variable {before after : Engine} {effects first second : List Effect}

theorem OwnWrites.evolves {voucher : ConversationId → MerkleNode → Prop}
    (hwrites : OwnWrites before effects) (hevolves : Evolves voucher before after) :
    OwnWrites after effects := by
  intro conversationId node hmem
  obtain ⟨hauthored, happlied⟩ := hwrites _ _ hmem
  exact ⟨hevolves.authored.subset hauthored, happlied.mono hevolves.identity.changes_suffix⟩

theorem OwnWrites.append (hfirst : OwnWrites after first) (hsecond : OwnWrites after second) :
    OwnWrites after (first ++ second) := by
  intro conversationId node hmem
  rcases List.mem_append.mp hmem with h | h
  · exact hfirst _ _ h
  · exact hsecond _ _ h

theorem OwnWrites.nil : OwnWrites after [] :=
  fun _ _ hmem => nomatch hmem

/-- A successful call writes only own nodes as verified. -/
def Outcome.Writes (outcome : Outcome) : Prop :=
  ∀ effects, outcome.1 = .ok effects → OwnWrites outcome.2 effects

theorem Outcome.Writes.of_eq (hwrites : outcome.Writes) (heq : outcome = (.ok effects, after)) :
    OwnWrites after effects := by
  subst heq
  exact hwrites effects rfl

theorem Outcome.Writes.intro
    (hwrites : ∀ effects after, outcome = (.ok effects, after) → OwnWrites after effects) :
    outcome.Writes :=
  fun effects hok => hwrites effects outcome.2 (Prod.ext hok rfl)

/-- The engine evolves and writes own nodes only. -/
def WritesOwn : CallRelation := fun before effects after =>
  Evolves (fun _ _ => True) before after ∧ OwnWrites after effects

theorem Outcome.Follows.ownWrites (h : outcome.Follows WritesOwn before) : outcome.Writes :=
  .intro fun _ _ heq => (h.ok heq).2

theorem Outcome.Follows.evolves (h : outcome.Follows WritesOwn before) :
    Evolves (fun _ _ => True) before outcome.2 := by
  unfold Outcome.Follows at h
  split at h
  · exact h.1
  · exact h.1

theorem Outcome.Follows.writes (hevolves : Evolves (fun _ _ => True) before outcome.2)
    (hwrites : outcome.Writes) : outcome.Follows WritesOwn before := by
  unfold Outcome.Follows
  split
  next effects after => exact ⟨hevolves, hwrites effects rfl⟩
  next error after => exact ⟨hevolves, .nil⟩

end Applied

namespace Engine

variable [Primitives] (engine : Engine) (store : InMemoryStore)
variable (conversationId : ConversationId) (node : MerkleNode) (nowMs : Int)

/-! ## Side effects -/

theorem revalidateNodes_writes (nodes : List MerkleNode) (after : Engine) :
    OwnWrites after (engine.revalidateNodes store conversationId nowMs nodes).1 := by
  induction nodes generalizing engine with
  | nil => exact .nil
  | cons node rest ih =>
      unfold revalidateNodes
      split
      next checked _ => exact ih checked
      next checked _ =>
        intro conversation written hmem
        rcases List.mem_cons.mp hmem with heq | hmem
        · cases heq
        · rcases List.mem_cons.mp hmem with heq | hmem
          · cases heq
          · exact ih checked _ _ hmem

variable {rotate : Rotation} {after : Engine}

theorem tryRotate_writes (postRevocation : Bool)
    (hrotate : ∀ engine flag, Outcome.Writes (rotate engine flag)) :
    OwnWrites (engine.tryRotate rotate postRevocation).2
      (engine.tryRotate rotate postRevocation).1 := by
  unfold tryRotate
  split
  next heq => exact (hrotate engine postRevocation).of_eq heq
  next => exact .nil

variable (ctx : CausalContext)

theorem applyRevoke_writes (target : PhysicalDevicePk)
    (hrotate : ∀ engine flag, Outcome.Writes (rotate engine flag)) :
    OwnWrites (engine.applyRevoke rotate ctx conversationId node target nowMs).2
      (engine.applyRevoke rotate ctx conversationId node target nowMs).1 := by
  unfold applyRevoke
  simp only
  split
  · exact tryRotate_writes _ true hrotate
  · exact .nil

theorem applyHandshakePulse_writes
    (hrotate : ∀ engine flag, Outcome.Writes (rotate engine flag)) :
    OwnWrites (engine.applyHandshakePulse rotate ctx conversationId node nowMs).2
      (engine.applyHandshakePulse rotate ctx conversationId node nowMs).1 := by
  unfold applyHandshakePulse
  simp only
  split
  · exact tryRotate_writes _ false hrotate
  · exact .nil

variable {effects : List Effect} {verified authentic : Bool}

theorem applyAuthorize_ok {ctx : CausalContext} {cert : DelegationCertificate}
    (h : (engine.applyAuthorize ctx conversationId node cert).1 = .ok effects) : effects = [] := by
  unfold applyAuthorize at h
  simp only at h
  split at h
  · cases h
  · split at h <;>
    · cases h
      rfl

theorem applyAction_writes
    (hrotate : ∀ engine flag, Outcome.Writes (rotate engine flag)) :
    Outcome.Writes (engine.applyAction rotate ctx conversationId node nowMs) := by
  have hnone : ∀ {after : Engine} {effects : List Effect},
      Except.ok [] = (Except.ok effects : Except MerkleToxError _) → OwnWrites after effects := by
    intro after effects heq
    cases heq
    exact .nil
  intro effects
  unfold applyAction
  simp only
  split
  · exact hnone
  · intro hresult
    rw [engine.applyAuthorize_ok conversationId node hresult]
    exact .nil
  · intro hresult
    cases hresult
    exact engine.applyRevoke_writes conversationId node nowMs ctx _ hrotate
  · exact hnone
  · exact hnone
  · exact hnone
  · exact hnone
  · exact hnone
  · exact hnone
  · intro hresult
    cases hresult
    exact engine.applyHandshakePulse_writes conversationId node nowMs ctx hrotate
  · exact hnone
  · exact hnone

/-- The rotation after a revocation keeps the revocation. -/
theorem applyRevoke_changes (target : PhysicalDevicePk)
    (hrotate : ∀ engine flag, Evolves (fun _ _ => True) engine (rotate engine flag).2) :
    .revoke conversationId node.senderPk node.authorPk target node.topologicalRank
        node.networkTimestamp (hash node) ∈
      (engine.applyRevoke rotate ctx conversationId node target nowMs).2.identityManager.changes := by
  have hkept : ∀ revoked : Engine, revoked.identityManager.changes <:+
      (revoked.tryRotate rotate true).2.identityManager.changes :=
    fun revoked => (revoked.tryRotate_evolves true hrotate).identity.changes_suffix
  unfold applyRevoke
  simp only
  split
  · exact (hkept _).subset List.mem_cons_self
  · exact List.mem_cons_self

theorem applyGenesis_changes (creatorPk : LogicalIdentityPk) (createdAt : Int)
    (flags : BitVec 64) :
    (engine.applyGenesis conversationId node creatorPk createdAt flags).identityManager.changes =
      .addMember conversationId creatorPk 0 createdAt :: engine.identityManager.changes := by
  unfold applyGenesis modifyEstablished
  split <;> rfl

theorem applyAuthorize_changes (cert : DelegationCertificate) :
    (engine.applyAuthorize ctx conversationId node cert).2.identityManager.changes =
      .authorize ctx conversationId node.authorPk cert node.networkTimestamp node.topologicalRank
        (hash node) :: engine.identityManager.changes := by
  rw [← authorizeDevice_changes]
  unfold applyAuthorize
  simp only
  split
  · rfl
  · split <;> rfl

theorem applyAction_applied
    (hrotate : ∀ engine flag, Evolves (fun _ _ => True) engine (rotate engine flag).2) :
    Applied (engine.applyAction rotate ctx conversationId node nowMs).2.identityManager
      conversationId node := by
  unfold Applied applyAction
  simp only
  cases hcontent : node.content with
  | control action =>
      cases action with
      | genesis =>
          simp only
          rw [applyGenesis_changes]
          exact List.mem_cons_self
      | authorizeDevice cert =>
          simp only
          refine ⟨ctx, ?_⟩
          rw [applyAuthorize_changes]
          exact List.mem_cons_self
      | revokeDevice target reason =>
          exact engine.applyRevoke_changes conversationId node nowMs ctx target hrotate
      | _ => trivial
  | _ => trivial

/-- The effects of the ratchet and of the heads write no node. -/
theorem advanceRatchet_writes (after : Engine) :
    OwnWrites after (engine.advanceRatchet conversationId node nowMs).1 := by
  unfold advanceRatchet
  split
  · exact .nil
  · split
    · exact .nil
    · simp only
      unfold advanceEstablished
      split
      · exact .nil
      · intro conversation written hmem
        simp at hmem

theorem updateHeads_writes (after : Engine) :
    OwnWrites after (engine.updateHeads store conversationId node).1 := by
  unfold updateHeads
  simp only
  split <;>
  · intro conversation written hmem
    simp at hmem

/-- A node whose side effects succeed took effect, and they write own nodes only. -/
theorem applySideEffects_writes
    (hevolves : ∀ engine flag, Evolves (fun _ _ => True) engine (rotate engine flag).2)
    (hrotate : ∀ engine flag, Outcome.Writes (rotate engine flag))
    (h : engine.applySideEffects rotate store conversationId node nowMs = (.ok effects, after)) :
    OwnWrites after effects ∧ Applied after.identityManager conversationId node := by
  have hwrites := applyAction_writes (engine.causalContext store node).2 conversationId node nowMs
    (engine.causalContext store node).1 hrotate
  have happlied := applyAction_applied (engine.causalContext store node).2 conversationId node
    nowMs (engine.causalContext store node).1 hevolves
  unfold applySideEffects at h
  simp only at h
  split at h
  · cases h
  next actionEffects acted heq =>
    cases h
    have hkept : Evolves (fun _ _ => True) acted ((acted.advanceRatchet conversationId node
        nowMs).2.updateHeads store conversationId node).2 :=
      (acted.advanceRatchet_evolves conversationId node nowMs).trans
        (updateHeads_evolves _ store conversationId node)
    rw [heq] at happlied
    refine ⟨((((hwrites.of_eq heq).evolves hkept).append ?_).append ?_),
      happlied.mono hkept.identity.changes_suffix⟩
    · exact acted.advanceRatchet_writes conversationId node nowMs _
    · exact updateHeads_writes _ store conversationId node _

/-! ## Authoring -/

theorem ownEffects_mem {wire : Option WireNode} {conversation : ConversationId}
    {written : MerkleNode}
    (hmem : .writeStore conversation written true ∈
      engine.ownEffects conversationId node wire) :
    conversation = conversationId ∧ written = node := by
  unfold ownEffects at hmem
  rcases List.mem_append.mp hmem with hmem | hmem
  · rcases List.mem_append.mp hmem with hmem | hmem
    · split at hmem
      · split at hmem <;> simp at hmem
      · simp at hmem
    · cases List.mem_singleton.mp hmem
      exact ⟨rfl, rfl⟩
  · simp at hmem

theorem authorNodeInternal_writes (content : Content) (metadata : Bytes) (useEpoch : Option Nat)
    (hevolves : ∀ engine flag, Evolves (fun _ _ => True) engine (rotate engine flag).2)
    (hrotate : ∀ engine flag, Outcome.Writes (rotate engine flag)) :
    Outcome.Writes (engine.authorNodeInternal rotate store conversationId content metadata useEpoch
      nowMs) := by
  refine .intro fun effects after hok => ?_
  unfold authorNodeInternal at hok
  simp only at hok
  split at hok
  · cases hok
  next node wire signed hsign =>
    split at hok
    · cases hok
    next sideEffects settled hside =>
      obtain ⟨hwrites, happlied⟩ := applySideEffects_writes _ store conversationId node nowMs
        hevolves hrotate hside
      have hauthored : (conversationId, node) ∈ settled.authored := by
        have hput : Evolves (fun _ _ => True) _ (signed.putOwn conversationId node wire nowMs).2 :=
          signed.putOwn_evolves_noted conversationId node nowMs wire
        have hsettled : Evolves (fun _ _ => True) (signed.putOwn conversationId node wire nowMs).2
            settled := .of_eq hside (applySideEffects_evolves _ store conversationId node nowMs
              hevolves)
        exact (hput.trans hsettled).authored.subset List.mem_cons_self
      have hrevalidated : Evolves (fun _ _ => True) settled after ∧ ∃ invalidated,
          OwnWrites after invalidated ∧ effects =
            (signed.putOwn conversationId node wire nowMs).2.ownEffects conversationId node
              (signed.putOwn conversationId node wire nowMs).1 ++ sideEffects ++ invalidated ++
            [.emitEvent (.nodeVerified conversationId (hash node) node)] := by
        split at hok
        · cases hok
          exact ⟨settled.revalidateAllVerifiedNodes_evolves store conversationId nowMs, _,
            settled.revalidateNodes_writes store conversationId nowMs _ _, rfl⟩
        · cases hok
          exact ⟨.refl _, _, .nil, rfl⟩
      obtain ⟨hkept, invalidated, hinvalidated, rfl⟩ := hrevalidated
      refine .append (.append (.append ?_ (hwrites.evolves hkept)) hinvalidated) ?_
      · intro conversation written hmem
        obtain ⟨rfl, rfl⟩ := ownEffects_mem _ _ _ hmem
        exact ⟨hkept.authored.subset hauthored, happlied.mono hkept.identity.changes_suffix⟩
      · intro conversation written hmem
        simp at hmem

/-- Authoring evolves the engine and writes own nodes only. -/
theorem writes_rule : AuthoringRule store conversationId nowMs WritesOwn fun _ => True :=
  have rule : AuthoringRule store conversationId nowMs
      (fun before _ after => Evolves (fun _ _ => True) before after) fun _ => True :=
    evolves_rule store conversationId nowMs
  { refl := fun engine => ⟨rule.refl engine, .nil⟩
    trans := fun hfirst hsecond =>
      ⟨hfirst.1.trans hsecond.1, (hfirst.2.evolves hsecond.1).append hsecond.2⟩
    lost := fun h => ⟨h.1, .nil⟩
    drawn := fun hdrawn => ⟨rule.drawn hdrawn, .nil⟩
    rekeyed := fun engine _ hrekeys => ⟨rule.rekeyed engine hrekeys, .nil⟩
    listed := fun engine ctx rank => ⟨rule.listed engine ctx rank, .nil⟩
    keys := rule.keys
    author := fun engine content metadata useEpoch _ hrotate =>
      .writes (engine.authorNodeInternal_evolves store conversationId nowMs _ _ _
          fun engine flag => (hrotate engine flag).evolves)
        (engine.authorNodeInternal_writes store conversationId nowMs _ _ _
          (fun engine flag => (hrotate engine flag).evolves)
          fun engine flag => (hrotate engine flag).ownWrites)
    cleared := fun engine => ⟨rule.cleared engine, .nil⟩
    installed := fun engine kConv => ⟨rule.installed engine kConv, .nil⟩
    noted := fun engine epoch kConv => ⟨.refl engine, fun _ _ hmem => by simp at hmem⟩
    wanted := fun engine => ⟨.refl engine, fun _ _ hmem => by simp at hmem⟩ }

theorem rotateConversationKey_writes (postRevocation : Bool) :
    Outcome.Writes (rotateConversationKey store conversationId nowMs engine postRevocation) :=
  ((writes_rule store conversationId nowMs).rotateConversationKey engine postRevocation).ownWrites

theorem senderRekey_writes :
    Outcome.Writes (engine.senderRekey store conversationId nowMs) :=
  have rule := writes_rule store conversationId nowMs
  (rule.senderRekey rule.authorKeys engine).ownWrites

theorem authorNode_writes (content : Content) (metadata : Bytes) :
    Outcome.Writes (engine.authorNode store conversationId content metadata nowMs) :=
  ((writes_rule store conversationId nowMs).authorNode (fun _ => trivial) engine content
    metadata).ownWrites

/-! ## Handling nodes -/

theorem settle_writes
    (h : engine.settle store conversationId node verified authentic nowMs = (.ok effects, after)) :
    OwnWrites after effects ∧
      (verified = true → Applied after.identityManager conversationId node) := by
  unfold settle at h
  split at h
  · split at h
    · cases h
    next sideEffects settled hside =>
      obtain ⟨hwrites, happlied⟩ := engine.applySideEffects_writes store conversationId node nowMs
        (fun engine flag => engine.rotateConversationKey_evolves store conversationId nowMs flag)
        (fun engine flag => engine.rotateConversationKey_writes store conversationId nowMs flag)
        hside
      split at h
      · cases h
        have hkept : Evolves (fun _ _ => True) settled _ :=
          settled.revalidateAllVerifiedNodes_evolves store conversationId nowMs
        exact ⟨(hwrites.evolves hkept).append
          (settled.revalidateNodes_writes store conversationId nowMs _ _),
          fun _ => happlied.mono hkept.identity.changes_suffix⟩
      · cases h
        exact ⟨hwrites, fun _ => happlied⟩
  next hidle =>
    cases h
    refine ⟨.nil, fun hverified => ?_⟩
    simp [hverified] at hidle

/-- Committing a node writes the node, with its verdict, and own nodes. -/
theorem commit_writes {keyEffects : List Effect} {opkIds : List NodeHash} {verdict : Verdict}
    (hkeys : OwnWrites after keyEffects)
    (h : engine.commit store conversationId node keyEffects opkIds verified authentic nowMs =
      (.ok verdict, after)) :
    verdict.verified = verified ∧
    (verified = true → Applied after.identityManager conversationId node) ∧
    ∀ conversation written, .writeStore conversation written true ∈ verdict.effects →
      (conversation = conversationId ∧ written = node ∧ verified = true) ∨
      ((conversation, written) ∈ after.authored ∧
        Applied after.identityManager conversation written) := by
  unfold commit at h
  split at h
  · cases h
  · split at h
    · cases h
    next effects settled hsettle =>
      obtain ⟨hwrites, happlied⟩ := settle_writes _ store conversationId node nowMs hsettle
      cases h
      refine ⟨rfl, happlied, ?_⟩
      intro conversation written hmem
      rcases List.mem_append.mp hmem with hmem | hmem
      · rcases List.mem_append.mp hmem with hmem | hmem
        · exact .inr (hkeys _ _ hmem)
        · cases List.mem_singleton.mp hmem
          exact .inl ⟨rfl, rfl, rfl⟩
      · exact .inr (hwrites _ _ hmem)

theorem usedKeys_writes (assessment : Assessment) (after : Engine) :
    OwnWrites after (engine.usedKeys conversationId node assessment).effects := by
  have hwrap : ∀ generation ephemeralPk wrappedKeys, OwnWrites after (engine.processKeyWrap
      conversationId node generation ephemeralPk wrappedKeys).effects := by
    intro generation ephemeralPk wrappedKeys conversation written hmem
    unfold processKeyWrap at hmem
    simp only at hmem
    split at hmem <;> simp at hmem
  unfold usedKeys
  split
  · unfold processKeys
    split
    · exact hwrap _ _ _
    · split <;> exact .nil
    · split <;> exact .nil
    · exact .nil
  · exact .nil

theorem evaluateNode_writes {verdict : Verdict}
    (h : engine.evaluateNode store conversationId node nowMs = (.ok verdict, after)) :
    (verdict.verified = true → Applied after.identityManager conversationId node) ∧
    ∀ conversation written, .writeStore conversation written true ∈ verdict.effects →
      (conversation = conversationId ∧ written = node ∧ verdict.verified = true) ∨
      ((conversation, written) ∈ after.authored ∧
        Applied after.identityManager conversation written) := by
  unfold evaluateNode at h
  split at h
  · cases h
  next assessment looked hvet =>
    unfold conclude at h
    simp only at h
    obtain ⟨hverified, happlied, hwrites⟩ := commit_writes _ store conversationId node nowMs
      (looked.usedKeys_writes conversationId node assessment after) h
    rw [hverified]
    exact ⟨happlied, hwrites⟩

end Engine

end MerkleTox.Core
