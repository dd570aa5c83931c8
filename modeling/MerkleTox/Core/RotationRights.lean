import MerkleTox.Core.Polling
import MerkleTox.Core.Steady

/-! # Who rotates keys

A rotation wraps a new conversation key for the group, which splits its epochs when a device
without ADMIN does it. `author_node` rotates without asking, and `poll` and the handler of
re-inclusion requests ask about another identity than the one the device acts for.
-/

namespace MerkleTox.Core

open Library Proto

/-- The key wraps among the nodes that effects write as verified are those of one
conversation, and only if they are `allowed`. -/
def WrapsOnly (conversationId : ConversationId) (allowed : Prop) (effects : List Effect) : Prop :=
  ∀ other node, .writeStore other node true ∈ effects → node.content.isKeyWrap = true →
    other = conversationId ∧ allowed

section Effects

variable {conversationId : ConversationId} {allowed : Prop} {first second : List Effect}

theorem WrapsOnly.nil : WrapsOnly conversationId allowed [] :=
  fun _ _ hmem => absurd hmem List.not_mem_nil

theorem WrapsOnly.append (hfirst : WrapsOnly conversationId allowed first)
    (hsecond : WrapsOnly conversationId allowed second) :
    WrapsOnly conversationId allowed (first ++ second) := by
  intro other node hmem hwrap
  rcases List.mem_append.mp hmem with hmem | hmem
  · exact hfirst other node hmem hwrap
  · exact hsecond other node hmem hwrap

theorem WrapsOnly.of_unverified
    (hunverified : ∀ other node, .writeStore other node true ∉ first) :
    WrapsOnly conversationId allowed first :=
  fun other node hmem => absurd hmem (hunverified other node)

theorem WrapsOnly.of_private (hprivate : ∀ effect ∈ first, effect.isPrivate = true) :
    WrapsOnly conversationId allowed first :=
  .of_unverified fun _ _ hmem => nomatch hprivate _ hmem

theorem WrapsOnly.cons {effect : Effect} (hprivate : effect.isPrivate = true)
    (hwraps : WrapsOnly conversationId allowed first) :
    WrapsOnly conversationId allowed (effect :: first) := by
  intro other node hmem hwrap
  rcases List.mem_cons.mp hmem with rfl | hmem
  · cases hprivate
  · exact hwraps other node hmem hwrap

end Effects

variable {outcome : Outcome} {judge : List Effect → Prop}

/-- The effects of a call that succeeds. -/
theorem WrapsOnly.of_outcome {conversationId : ConversationId} {allowed : Prop}
    {effects : List Effect} {after : Engine}
    (hwraps : WrapsOnly conversationId allowed outcome.effects)
    (heq : outcome = (.ok effects, after)) : WrapsOnly conversationId allowed effects := by
  rw [heq] at hwraps
  exact hwraps

/-- A relation of effects alone. -/
theorem Outcome.Follows.effects {before : Engine}
    (h : outcome.Follows (fun _ effects _ => judge effects) before) (hnil : judge []) :
    judge outcome.effects := by
  unfold Outcome.effects
  split
  next heq => exact h.ok (Prod.ext heq rfl)
  next => exact hnil

theorem Outcome.Follows.of_effects {before : Engine} (hnil : judge []) (h : judge outcome.effects) :
    outcome.Follows (fun _ effects _ => judge effects) before := by
  unfold Outcome.Follows
  split
  next => exact h
  next => exact hnil

namespace Engine

/-- The contents whose side effects rotate the key for a device that holds ADMIN. -/
def mayRotate : Content → Bool
  | .control (.revokeDevice ..) | .control .handshakePulse => true
  | _ => false

/-- This device is its identity's own, or was delegated an ADMIN that has not expired. -/
def hasAdminDelegation (engine : Engine) (conversationId : ConversationId) (nowMs : Int) : Bool :=
  engine.selfPk = engine.selfLogicalPk.toPhysical ||
    (engine.identityManager.recordsOf conversationId engine.selfPk).any fun record =>
      nowMs < record.expiresAt && record.permissions.includes .admin

/-- This device is no admin by its certificate and 400 hops or more from the admin track. -/
def nearsSoftAnchor (engine : Engine) (store : InMemoryStore) (conversationId : ConversationId) :
    Bool :=
  match engine.selfCerts.get conversationId with
  | none => false
  | some cert =>
      !cert.permissions.includes .admin &&
        400 ≤ ((((store.heads.get conversationId).getD []).filterMap
          store.getAdminDistance).min?.getD 0 + 1)

/-- What `author_node` neither rotates for nor is asked to wrap: no rotation is due, not even
for a soft anchor that follows the message, and the content brings none about. -/
structure RotatesNothing (engine : Engine) (store : InMemoryStore)
    (conversationId : ConversationId) (content : Content) (nowMs : Int) : Prop where
  keyWrap : content.isKeyWrap = false
  due : engine.checkRotationTriggers conversationId nowMs = false
  rotates : mayRotate content = true → engine.hasAdminDelegation conversationId nowMs = false
  anchor : content.isControl = false → ∀ em, engine.establishedState conversationId = some em →
    em.messageCount + countedMessages content = messagesPerEpoch →
      engine.nearsSoftAnchor store conversationId = false

theorem hasAdminDelegation_of_rights {engine engine' : Engine}
    (hrights : engine'.rights = engine.rights) (conversationId : ConversationId) (nowMs : Int) :
    engine'.hasAdminDelegation conversationId nowMs =
      engine.hasAdminDelegation conversationId nowMs := by
  have hpk : engine'.selfPk = engine.selfPk := congrArg (fun rights => rights.1.1) hrights
  have hlogical : engine'.selfLogicalPk = engine.selfLogicalPk :=
    congrArg (fun rights => rights.1.2.1) hrights
  have hrecords : engine'.identityManager.authorizedDevices =
      engine.identityManager.authorizedDevices := congrArg (fun rights => rights.2.1) hrights
  unfold hasAdminDelegation IdentityManager.recordsOf
  rw [hpk, hlogical, hrecords]

theorem includes_admin_iff (permissions : Permissions) :
    permissions.includes .admin = true ↔ permissions.getLsbD 0 = true := by
  unfold Permissions.includes Permissions.admin
  rw [decide_eq_true_iff]
  constructor
  · intro heq
    have hbit := congrArg (fun word : BitVec 32 => word.getLsbD 0) heq
    simpa using hbit
  · intro hbit
    refine BitVec.eq_of_getLsbD_eq fun index hindex => ?_
    cases index with
    | zero => simpa using hbit
    | succ index => simp [BitVec.getLsbD_one]

/-- ADMIN in a union of permissions comes from one of them. -/
theorem includes_admin_foldl {Element : Type} {f : Element → Option Permissions}
    {list : List Element} {best : Option Permissions} {union : Permissions}
    (heq : list.foldl (fun best element => combine (· ||| ·) best (f element)) best = some union)
    (hadmin : union.includes .admin = true) :
    (∃ permissions, best = some permissions ∧ permissions.includes .admin = true) ∨
      ∃ element ∈ list, ∃ permissions, f element = some permissions ∧
        permissions.includes .admin = true := by
  induction list generalizing best with
  | nil => exact .inl ⟨union, heq, hadmin⟩
  | cons element rest ih =>
      rcases ih heq with ⟨permissions, hbest, hincludes⟩ | ⟨other, hmem, hother⟩
      · have hhead : ∀ permissions, f element = some permissions →
            permissions.includes .admin = true → ∃ other ∈ element :: rest, ∃ permissions,
              f other = some permissions ∧ permissions.includes .admin = true :=
          fun permissions hvalue hvalid =>
            ⟨element, List.mem_cons_self, permissions, hvalue, hvalid⟩
        cases hvalue : f element with
        | none =>
            simp only [hvalue] at hbest
            cases best with
            | none => cases hbest
            | some earlier => exact .inl ⟨permissions, hbest, hincludes⟩
        | some value =>
            simp only [hvalue] at hbest
            cases best with
            | none =>
                cases hbest
                exact .inr (hhead permissions hvalue hincludes)
            | some earlier =>
                cases hbest
                rw [includes_admin_iff, BitVec.getLsbD_or, Bool.or_eq_true] at hincludes
                rcases hincludes with hbit | hbit
                · exact .inl ⟨earlier, rfl, (includes_admin_iff earlier).mpr hbit⟩
                · exact .inr (hhead value hvalue ((includes_admin_iff value).mpr hbit))
      · exact .inr ⟨other, List.mem_cons_of_mem _ hmem, hother⟩

/-- A device without an ADMIN delegation holds ADMIN in no causal context, whatever is
revoked. -/
theorem holdsAdmin_of_undelegated {engine : Engine} {conversationId : ConversationId} {nowMs : Int}
    (hundelegated : engine.hasAdminDelegation conversationId nowMs = false) (ctx : CausalContext)
    (rank : Nat) : engine.holdsAdmin ctx conversationId nowMs rank = false := by
  unfold hasAdminDelegation at hundelegated
  simp only [Bool.or_eq_false_iff, decide_eq_false_iff_not] at hundelegated
  by_contra hholds
  rw [Bool.not_eq_false] at hholds
  unfold holdsAdmin IdentityManager.getPermissions IdentityManager.getPermissionsRecursive at hholds
  rw [if_neg hundelegated.1] at hholds
  cases hunion : (engine.identityManager.recordsOf conversationId engine.selfPk).foldl
      (fun union record => combine (· ||| ·) union
        (if !engine.identityManager.recordActive ctx conversationId engine.selfPk
            engine.selfLogicalPk nowMs rank record then none
        else if record.issuerPk = engine.selfLogicalPk.toPhysical then some record.permissions
        else (engine.identityManager.getPermissionsRecursive ctx conversationId
          engine.selfLogicalPk nowMs rank maxAuthDepth record.issuerPk).map fun issuerPerms =>
            record.permissions &&& issuerPerms)) none with
  | none =>
      rw [hunion] at hholds
      cases hholds
  | some union =>
      rw [hunion] at hholds
      rcases includes_admin_foldl hunion hholds with
        ⟨_, hnone, -⟩ | ⟨record, hmem, value, hvalue, hvalid⟩
      · cases hnone
      · have hrecord := List.any_eq_false.mp hundelegated.2 record hmem
        rw [Bool.and_eq_true, decide_eq_true_iff, not_and, includes_admin_iff] at hrecord
        split at hvalue
        next => cases hvalue
        next hactive =>
          rw [Bool.not_eq_true, Bool.not_eq_false'] at hactive
          unfold IdentityManager.recordActive at hactive
          simp only [Bool.and_eq_true, decide_eq_true_iff] at hactive
          refine hrecord hactive.1.1.1.2 ?_
          rw [includes_admin_iff] at hvalid
          split at hvalue
          · cases hvalue
            exact hvalid
          · obtain ⟨issuerPerms, -, rfl⟩ := Option.map_eq_some_iff.mp hvalue
            rw [BitVec.getLsbD_and, Bool.and_eq_true] at hvalid
            exact hvalid.1

variable [Primitives]
variable {conversationId : ConversationId} {allowed : Prop}
variable (engine : Engine) (store : InMemoryStore) (node : MerkleNode) (nowMs : Int)

/-! ## What writes no key wrap -/

theorem revalidateNodes_unverified (nodes : List MerkleNode) (other : ConversationId)
    (written : MerkleNode) : .writeStore other written true ∉
      (engine.revalidateNodes store conversationId nowMs nodes).1 := by
  induction nodes generalizing engine with
  | nil => exact List.not_mem_nil
  | cons node rest ih =>
      unfold revalidateNodes
      split
      next checked heq => exact ih checked
      next checked heq =>
        simp only [List.mem_cons, not_or]
        exact ⟨nofun, nofun, ih checked⟩

variable {rotate : Rotation} {other : ConversationId}

omit [Primitives] in
theorem tryRotate_wraps
    (hrotate : ∀ engine flag, WrapsOnly conversationId allowed (rotate engine flag).effects)
    (postRevocation : Bool) :
    WrapsOnly conversationId allowed (engine.tryRotate rotate postRevocation).1 := by
  unfold tryRotate
  split
  next heq => exact .of_outcome (hrotate engine postRevocation) heq
  next => exact .nil

/-- The actions that rotate are those of revocations and handshake pulses, by a device with
an ADMIN delegation. -/
theorem applyAction_wraps {ctx : CausalContext} (hrotates : mayRotate node.content = true →
      engine.hasAdminDelegation conversationId nowMs = false ∨
        ∀ engine flag, WrapsOnly conversationId allowed (rotate engine flag).effects) :
    WrapsOnly conversationId allowed
      (engine.applyAction rotate ctx conversationId node nowMs).effects := by
  have hundelegated : ∀ {engine' : Engine} {rank : Nat},
      engine.hasAdminDelegation conversationId nowMs = false →
        engine'.holdsAdmin ctx conversationId nowMs rank = true →
          engine'.rights ≠ engine.rights := by
    intro engine' rank hnone hholds hrights
    rw [← hasAdminDelegation_of_rights hrights] at hnone
    rw [holdsAdmin_of_undelegated hnone] at hholds
    cases hholds
  unfold applyAction
  -- Only a revocation and a handshake pulse rotate, and either asks for admin rights first.
  split
  all_goals try exact .nil
  next cert hcontent =>
    unfold applyAuthorize
    simp only
    split
    · exact .nil
    · split <;> exact .nil
  next target reason hcontent =>
    rw [hcontent] at hrotates
    unfold applyRevoke
    simp only
    split
    next hadmin =>
      rw [Bool.and_eq_true] at hadmin
      rcases hrotates rfl with hnone | hrotate
      · exact (hundelegated hnone hadmin.2 rfl).elim
      · exact tryRotate_wraps _ hrotate true
    next => exact .nil
  next hcontent =>
    rw [hcontent] at hrotates
    unfold applyHandshakePulse
    simp only
    split
    next hadmin =>
      rw [Bool.and_eq_true, Bool.and_eq_true] at hadmin
      rcases hrotates rfl with hnone | hrotate
      · exact (hundelegated hnone hadmin.1.2 rfl).elim
      · exact tryRotate_wraps _ hrotate false
    next => exact .nil

theorem advanceRatchet_wraps : WrapsOnly conversationId allowed
    (engine.advanceRatchet conversationId node nowMs).1 := by
  unfold advanceRatchet
  split
  · exact .nil
  · split
    · exact .nil
    · exact .of_private (advanceEstablished_private conversationId node nowMs _)

theorem updateHeads_wraps : WrapsOnly conversationId allowed
    (engine.updateHeads store conversationId node).1 := by
  refine .of_unverified fun other written => ?_
  unfold updateHeads
  simp only
  split <;> exact nofun

theorem applySideEffects_wraps (hrotates : mayRotate node.content = true →
      engine.hasAdminDelegation conversationId nowMs = false ∨
        ∀ engine flag, WrapsOnly conversationId allowed (rotate engine flag).effects) :
    WrapsOnly conversationId allowed
      (engine.applySideEffects rotate store conversationId node nowMs).effects := by
  have haction : WrapsOnly conversationId allowed ((engine.causalContext store node).2.applyAction
      rotate (engine.causalContext store node).1 conversationId node nowMs).effects :=
    applyAction_wraps _ node nowMs hrotates
  unfold applySideEffects
  simp only
  split
  · exact .nil
  next effects acted heq =>
    rw [heq] at haction
    exact (haction.append (acted.advanceRatchet_wraps node nowMs)).append
      (updateHeads_wraps _ store node)

theorem ownEffects_wraps {node : MerkleNode} (wire : Option WireNode)
    (hkeyWrap : node.content.isKeyWrap = true → allowed) :
    WrapsOnly conversationId allowed (engine.ownEffects conversationId node wire) := by
  intro other written hmem hwrap
  unfold ownEffects at hmem
  simp only [List.mem_append, List.mem_singleton] at hmem
  rcases hmem with (hmem | hmem) | hmem
  · split at hmem
    · split at hmem
      · cases hmem
      · cases List.mem_singleton.mp hmem
    · cases hmem
  · cases hmem
    exact ⟨rfl, hkeyWrap hwrap⟩
  · obtain ⟨wire, -, heq⟩ := Option.map_eq_some_iff.mp (Option.mem_toList.mp hmem)
    cases heq

variable (content : Content)

/-- An own node is the only one that authoring it writes as verified, but for the rotations
of its side effects. -/
theorem authorNodeInternal_wraps (metadata : Bytes) (useEpoch : Option Nat)
    (hkeyWrap : content.isKeyWrap = true → allowed) (hrotates : mayRotate content = true →
      engine.hasAdminDelegation conversationId nowMs = false ∨
        ∀ engine flag, WrapsOnly conversationId allowed (rotate engine flag).effects) :
    WrapsOnly conversationId allowed (engine.authorNodeInternal rotate store conversationId content
      metadata useEpoch nowMs).effects := by
  have hsign : Steady conversationId (countedMessages content) engine
      (engine.signNode conversationId (engine.draftNode store conversationId content metadata
        useEpoch nowMs) useEpoch nowMs).2 :=
    engine.signNode_steady (engine.draftNode store conversationId content metadata useEpoch nowMs)
      nowMs useEpoch
  unfold authorNodeInternal
  simp only
  split
  · exact .nil
  next node wire signed heq =>
    rw [heq] at hsign
    obtain ⟨authentication, hnode⟩ := engine.signNode_draft conversationId node nowMs heq
    have hcontent : node.content = content := congrArg MerkleNode.content hnode
    have hput : Steady conversationId (countedMessages content + 0) engine
        (signed.putOwn conversationId node wire nowMs).2 :=
      hsign.trans (signed.putOwn_steady node nowMs wire)
    have hside : WrapsOnly conversationId allowed
        ((signed.putOwn conversationId node wire nowMs).2.applySideEffects rotate store
          conversationId node nowMs).effects := by
      refine applySideEffects_wraps _ store node nowMs fun hmay => ?_
      rw [hasAdminDelegation_of_rights hput.rights]
      exact hrotates (hcontent ▸ hmay)
    split
    · exact .nil
    next effects settled heq =>
      rw [heq] at hside
      refine .append (.append (.append ?_ hside) (.of_unverified ?_)) (.cons rfl .nil)
      · exact ownEffects_wraps _ _ (hcontent ▸ hkeyWrap)
      · intro other written
        split
        · exact revalidateNodes_unverified _ store nowMs _ other written
        · exact List.not_mem_nil

omit [Primitives] in
theorem wraps_keyRule : KeyRule conversationId nowMs
    fun _ effects _ => WrapsOnly conversationId allowed effects where
  refl _ := .nil
  trans hfirst hsecond := hfirst.append hsecond
  lost _ := .nil
  drawn _ := .nil
  rekeyed _ _ _ := .nil
  listed _ _ _ := .nil

/-- A node that hands out a sender key neither wraps a key nor rotates. -/
theorem authorKeys_wraps (rotate : Rotation) : AuthorsKeys store conversationId nowMs
    (fun _ effects _ => WrapsOnly conversationId allowed effects) rotate := by
  intro engine content metadata useEpoch hkeys
  refine .of_effects .nil (engine.authorNodeInternal_wraps store nowMs content metadata useEpoch
    (fun hwrap => ?_) fun hmay => ?_)
  · cases content with
    | keyWrap => cases hkeys
    | _ => cases hwrap
  · cases content with
    | control => cases hkeys
    | _ => cases hmay

theorem wraps_rule (hallowed : allowed) : AuthoringRule store conversationId nowMs
    (fun _ effects _ => WrapsOnly conversationId allowed effects) fun _ => True where
  toKeyRule := wraps_keyRule nowMs
  keys _ _ := trivial
  author engine content metadata useEpoch _ hrotate :=
    .of_effects .nil (engine.authorNodeInternal_wraps store nowMs content metadata useEpoch
      (fun _ => hallowed) fun _ => .inr fun engine flag => (hrotate engine flag).effects .nil)
  cleared _ := .nil
  installed _ _ := .nil
  noted _ _ _ := .cons rfl .nil
  wanted _ := .cons rfl .nil

theorem senderRekey_wraps :
    WrapsOnly conversationId allowed (engine.senderRekey store conversationId nowMs).effects :=
  ((wraps_keyRule nowMs).senderRekey (authorKeys_wraps store nowMs _) engine).effects .nil

/-- A rotation wraps the key of its own conversation. -/
theorem rotateConversationKey_wraps (postRevocation : Bool) (hallowed : allowed) :
    WrapsOnly conversationId allowed
      (rotateConversationKey store conversationId nowMs engine postRevocation).effects :=
  ((wraps_rule store nowMs hallowed).rotateConversationKey engine postRevocation).effects .nil

theorem shareJustInTime_wraps :
    WrapsOnly conversationId allowed
      (engine.shareJustInTime store conversationId content nowMs).1 :=
  (wraps_keyRule nowMs).shareJustInTime (authorKeys_wraps store nowMs _) engine content

theorem refreshKeys_wraps
    (hdue : engine.checkRotationTriggers conversationId nowMs = false ∨ allowed) :
    WrapsOnly conversationId allowed (engine.refreshKeys store conversationId nowMs).effects := by
  unfold refreshKeys
  split
  next htriggered =>
    have hallowed := hdue.resolve_left (by rw [htriggered]; exact Bool.false_ne_true.symm)
    split
    next heq =>
      refine .append ?_ (.cons rfl .nil)
      exact .of_outcome (engine.rotateConversationKey_wraps store nowMs false hallowed) heq
    next => exact .nil
  next =>
    split
    · exact engine.senderRekey_wraps store nowMs
    · exact .nil

theorem authorNodeOnce_wraps (metadata : Bytes)
    (hdue : engine.checkRotationTriggers conversationId nowMs = false ∨ allowed)
    (hkeyWrap : content.isKeyWrap = true → allowed)
    (hrotates : mayRotate content = true →
      engine.hasAdminDelegation conversationId nowMs = false ∨ allowed) :
    WrapsOnly conversationId allowed
      (engine.authorNodeOnce store conversationId content metadata nowMs).effects := by
  have hrefreshed : WrapsOnly conversationId allowed
      (engine.clearPending.refreshKeys store conversationId nowMs).effects :=
    refreshKeys_wraps _ store nowMs hdue
  unfold authorNodeOnce
  simp only
  split
  · exact .nil
  · split
    · exact .nil
    next effects refreshed heq =>
      split
      · exact .nil
      next hauthored =>
        refine .append (.append (.of_outcome hrefreshed heq) (shareJustInTime_wraps _ store nowMs
          content)) (.of_outcome (authorNodeInternal_wraps _ store nowMs content metadata _ hkeyWrap
            fun hmay => ?_) hauthored)
        by_cases hallowed : allowed
        · exact .inr fun engine flag => engine.rotateConversationKey_wraps store nowMs flag hallowed
        · have hrefresh : Steady conversationId 0 engine.clearPending refreshed :=
            .of_eq heq (refreshKeys_steady _ store nowMs (hdue.resolve_right hallowed))
          have hshare : Steady conversationId 0 engine.clearPending
              (refreshed.shareJustInTime store conversationId content nowMs).2 :=
            hrefresh.next (refreshed.shareJustInTime_steady store nowMs content)
          left
          rw [hasAdminDelegation_of_rights hshare.rights]
          exact (hrotates hmay).resolve_right hallowed

theorem createSnapshot_wraps
    (hdue : engine.checkRotationTriggers conversationId nowMs = false ∨ allowed) :
    WrapsOnly conversationId allowed
      (engine.createSnapshot store conversationId nowMs).effects := by
  unfold createSnapshot
  split
  · exact .nil
  · exact authorNodeOnce_wraps _ store nowMs _ _ hdue nofun nofun

theorem authorSoftAnchor_wraps
    (hdue : engine.checkRotationTriggers conversationId nowMs = false ∨ allowed) :
    WrapsOnly conversationId allowed
      (engine.authorSoftAnchor store conversationId nowMs).effects := by
  unfold authorSoftAnchor
  split
  · exact .nil
  · exact .nil
  · exact authorNodeOnce_wraps _ store nowMs _ _ hdue nofun nofun

theorem softAnchorDue_near {drawn : Engine}
    (heq : engine.softAnchorDue store conversationId = (true, drawn)) :
    engine.nearsSoftAnchor store conversationId = true ∧
      drawn.conversations = engine.conversations := by
  unfold softAnchorDue at heq
  unfold nearsSoftAnchor
  cases hcert : engine.selfCerts.get conversationId with
  | none =>
      simp only [hcert] at heq
      cases heq
  | some cert =>
      simp only [hcert] at heq ⊢
      split at heq
      next => cases heq
      next hnear =>
        rw [Bool.or_eq_true, decide_eq_true_iff, not_or, Bool.not_eq_true, Nat.not_lt] at hnear
        obtain ⟨-, rfl⟩ := Prod.mk.inj heq
        exact ⟨by rw [hnear.1, decide_eq_true hnear.2]; rfl, rfl⟩

/-- The counter reaches the end of an epoch between two snapshots, and a soft anchor then
follows only far from the admin track. -/
theorem autoAnchor_wraps {content : Content}
    (hcalm : (∃ before : Engine, Steady conversationId (countedMessages content) before engine ∧
      before.checkRotationTriggers conversationId nowMs = false ∧
      ∀ em, before.establishedState conversationId = some em →
        em.messageCount + countedMessages content = messagesPerEpoch →
          before.nearsSoftAnchor store conversationId = false) ∨ allowed) :
    WrapsOnly conversationId allowed (engine.autoAnchor store conversationId nowMs).1 := by
  have hcounted : countedMessages content ≤ 1 := by
    unfold countedMessages
    split <;> omega
  unfold autoAnchor
  simp only
  split
  next hcount =>
    have hcalm : engine.checkRotationTriggers conversationId nowMs = false ∨ allowed := by
      -- An epoch that became due with this message is full, and then the count of messages cannot
      -- ask for a snapshot.
      refine hcalm.imp_left ?_
      rintro ⟨before, hsteady, hdue, -⟩
      by_contra hnow
      obtain ⟨em, em', hem, hlast, hstate, hfull⟩ :=
        engine.last_of_due nowMs hsteady hdue hcounted (Bool.not_eq_false _ ▸ hnow)
      rw [hstate, Option.any_some, hfull] at hcount
      exact absurd hcount (by decide)
    have hwraps := engine.createSnapshot_wraps store nowMs hcalm
    split
    next heq =>
      rw [heq] at hwraps
      exact hwraps
    next => exact .nil
  next =>
    split
    next => exact .nil
    next drawn heq =>
      obtain ⟨hnear, hconversations⟩ := engine.softAnchorDue_near store heq
      have hcalm : drawn.checkRotationTriggers conversationId nowMs = false ∨ allowed := by
        refine hcalm.imp_left ?_
        rintro ⟨before, hsteady, hdue, hanchor⟩
        -- The draw that decides on an anchor leaves the conversations alone.
        have hsame : drawn.establishedState conversationId =
            engine.establishedState conversationId := by
          unfold establishedState
          rw [hconversations]
        rw [checkRotationTriggers_congr nowMs hsame]
        by_contra hnow
        obtain ⟨em, em', hem, hlast, -⟩ :=
          engine.last_of_due nowMs hsteady hdue hcounted (Bool.not_eq_false _ ▸ hnow)
        have hcerts : engine.selfCerts = before.selfCerts :=
          congrArg (fun rights => rights.2.2) hsteady.rights
        have hfar := hanchor em hem hlast
        unfold nearsSoftAnchor at hnear hfar
        rw [hcerts, hfar] at hnear
        cases hnear
      have hwraps := drawn.authorSoftAnchor_wraps store nowMs hcalm
      split
      next heq =>
        rw [heq] at hwraps
        exact hwraps
      next => exact .nil

theorem authorNode_wraps (metadata : Bytes)
    (hnothing : engine.RotatesNothing store conversationId content nowMs ∨ allowed) :
    WrapsOnly conversationId allowed
      (engine.authorNode store conversationId content metadata nowMs).effects := by
  have honce : WrapsOnly conversationId allowed
      (engine.authorNodeOnce store conversationId content metadata nowMs).effects := by
    refine engine.authorNodeOnce_wraps store nowMs content metadata
      (hnothing.imp_left RotatesNothing.due) (fun hwrap => ?_) fun hmay =>
        hnothing.imp_left fun hnothing => hnothing.rotates hmay
    exact hnothing.resolve_left fun hnothing => absurd hwrap (by
      rw [hnothing.keyWrap]
      exact Bool.false_ne_true)
  unfold authorNode
  split
  · exact .nil
  next effects authored heq =>
    rw [heq] at honce
    split
    · exact honce
    next hcontrol =>
      rw [Bool.not_eq_true] at hcontrol
      refine honce.append (authored.autoAnchor_wraps store nowMs (hnothing.imp_left
        fun hnothing => ⟨engine, ?_, hnothing.due, hnothing.anchor hcontrol⟩))
      exact .of_eq heq (engine.authorNodeOnce_steady store nowMs content metadata hnothing.due
        hcontrol)

/-! ## The background task and the re-inclusion -/

theorem pollConversation_wraps : WrapsOnly conversationId
    (engine.checkRotationTriggers conversationId nowMs = true)
    (engine.pollConversation store nowMs conversationId).effects := by
  unfold pollConversation
  split
  next hdue =>
    split
    · exact engine.rotateConversationKey_wraps store nowMs false hdue
    · exact .nil
  next =>
    split
    · exact engine.senderRekey_wraps store nowMs
    · exact .nil

theorem pollConversation_elsewhere (hne : other ≠ conversationId) :
    (engine.pollConversation store nowMs conversationId).2.establishedState other =
      engine.establishedState other := by
  unfold pollConversation
  split
  · split
    · exact engine.rotateConversationKey_elsewhere store nowMs false hne
    · rfl
  · split
    · exact (engine.senderRekey_steady store nowMs).elsewhere other hne
    · rfl

/-- The conversations whose keys `poll` wraps were due when it began. -/
theorem pollConversations_due {conversationIds : List ConversationId}
    (hnodup : conversationIds.Nodup) {written : MerkleNode} (hmem : .writeStore other written true ∈
      (engine.pollConversations store nowMs conversationIds).effects)
    (hwrap : written.content.isKeyWrap = true) :
    other ∈ conversationIds ∧ engine.checkRotationTriggers other nowMs = true := by
  induction conversationIds generalizing engine with
  | nil => cases hmem
  | cons conversationId rest ih =>
      obtain ⟨hfresh, hrest⟩ := List.nodup_cons.mp hnodup
      have hhead : WrapsOnly conversationId _
          (engine.pollConversation store nowMs conversationId).effects :=
        engine.pollConversation_wraps store nowMs
      unfold pollConversations at hmem
      split at hmem
      next => cases hmem
      next effects polled heq =>
        split at hmem
        next => cases hmem
        next later final hlater =>
          rcases List.mem_append.mp hmem with hmem | hmem
          · obtain ⟨rfl, hdue⟩ := (hhead.of_outcome heq) other written hmem hwrap
            exact ⟨List.mem_cons_self, hdue⟩
          · have hpolled := ih polled hrest (by rw [hlater]; exact hmem)
            have hne : other ≠ conversationId := fun hsame => hfresh (hsame ▸ hpolled.1)
            have hstate := engine.pollConversation_elsewhere store nowMs hne
            rw [heq] at hstate
            refine ⟨List.mem_cons_of_mem _ hpolled.1, ?_⟩
            rw [← checkRotationTriggers_congr nowMs hstate]
            exact hpolled.2

/-- A request that the device's check lets through is accepted for members of a verified
anchor snapshot. -/
def acceptsReinclusion (store : InMemoryStore) (requesterPk : PhysicalDevicePk)
    (healingSnapshotHash : NodeHash) : Bool :=
  (store.getNode healingSnapshotHash).any fun snapshotNode =>
    store.isVerified healingSnapshotHash && snapshotLists snapshotNode requesterPk

theorem handleReinclusionRequest_wraps (requesterPk : PhysicalDevicePk)
    (healingSnapshotHash : NodeHash) :
    WrapsOnly conversationId (acceptsReinclusion store requesterPk healingSnapshotHash = true)
      (engine.handleReinclusionRequest store conversationId requesterPk healingSnapshotHash
        nowMs).2.effects := by
  unfold handleReinclusionRequest
  split
  · exact .nil
  · split
    · exact .nil
    next snapshotNode hnode =>
      split
      · exact .nil
      next haccepts =>
        have haccepted : acceptsReinclusion store requesterPk healingSnapshotHash = true := by
          rw [Bool.or_eq_true, not_or, Bool.not_eq_true, Bool.not_eq_true, Bool.not_eq_false',
            Bool.not_eq_false'] at haccepts
          unfold acceptsReinclusion
          rw [hnode, Option.any_some, haccepts.1, haccepts.2]
          rfl
        split
        next heq =>
          exact .of_outcome (engine.rotateConversationKey_wraps store nowMs false haccepted) heq
        next => exact .nil

end Engine

/-! ## Runs -/

/-- The conversation whose key a verified key wrap carries. -/
def Effect.wrapped : Effect → Option ConversationId
  | .writeStore conversationId node true =>
      if node.content.isKeyWrap then some conversationId else none
  | _ => none

/-- This device holds ADMIN for its logical identity, across all heads. -/
def Engine.adminAtHeads (engine : Engine) (conversationId : ConversationId) (nowMs : Int) : Bool :=
  engine.holdsAdmin .global conversationId nowMs u64Max

namespace World

variable [Primitives]

/-- A call that writes a key wrap is made by an admin of the conversation. -/
def RotatesAsAdmin (world : World) (command : KeyCommand) : Prop :=
  ∀ call ∈ world.rotating command, ∀ effect ∈ call.1.effects,
    ∀ conversationId ∈ effect.wrapped, world.engine.adminAtHeads conversationId call.2 = true

/-- A call by an admin, or one that has nothing to rotate. -/
def AdminOrIdle (world : World) : KeyCommand → Prop
  | .call (.authorNode conversationId content _ nowMs) =>
      world.engine.adminAtHeads conversationId nowMs = true ∨
        (world.engine.authoringBlocked conversationId content).isSome = true ∨
        world.engine.RotatesNothing world.store conversationId content nowMs
  | .call _ => True
  | .poll nowMs => ∀ conversationId,
      (world.engine.refreshed nowMs).checkRotationTriggers conversationId nowMs = true →
        world.engine.adminAtHeads conversationId nowMs = true
  | .reinclusionRequest conversationId requesterPk healingSnapshotHash nowMs =>
      Engine.acceptsReinclusion world.store requesterPk healingSnapshotHash = true →
        world.engine.adminAtHeads conversationId nowMs = true

omit [Primitives] in
theorem wrapped_eq_some {effect : Effect} {conversationId : ConversationId}
    (heq : effect.wrapped = some conversationId) :
    ∃ node, effect = .writeStore conversationId node true ∧ node.content.isKeyWrap = true := by
  unfold Effect.wrapped at heq
  split at heq
  next other node =>
    split at heq
    next hwrap =>
      cases heq
      exact ⟨node, rfl, hwrap⟩
    next => cases heq
  next => cases heq

theorem rotatesAsAdmin_step (world : World) (command : KeyCommand)
    (hidle : world.AdminOrIdle command) : world.RotatesAsAdmin command := by
  rintro ⟨outcome, time⟩ hcall effect heffect conversationId hwrapped
  obtain ⟨node, rfl, hwrap⟩ := wrapped_eq_some hwrapped
  have hof : ∀ {other : ConversationId} {allowed : Prop},
      WrapsOnly other allowed outcome.effects → conversationId = other ∧ allowed :=
    fun hwraps => hwraps conversationId node heffect hwrap
  cases command with
  | call command =>
      cases command with
      | authorNode other content metadata nowMs =>
          cases hcall
          rcases hidle with hadmin | hblocked | hnothing
          · obtain ⟨rfl, -⟩ := hof
              (world.engine.authorNode_wraps world.store time content metadata (.inr trivial))
            exact hadmin
          · obtain ⟨error, hblocked⟩ := Option.isSome_iff_exists.mp hblocked
            have herror : world.engine.authorNode world.store other content metadata time =
                (.error error, world.engine.clearPending) := by
              have hcleared : world.engine.clearPending.authoringBlocked other content =
                  some error := hblocked
              unfold Engine.authorNode Engine.authorNodeOnce
              simp only [hcleared]
            rw [herror] at heffect
            cases heffect
          · have hnone : WrapsOnly other False
                (world.engine.authorNode world.store other content metadata time).effects :=
              world.engine.authorNode_wraps world.store time content metadata (.inl hnothing)
            exact (hof hnone).2.elim
      | _ => cases hcall
  | poll nowMs =>
      cases hcall
      have hdue := Engine.pollConversations_due _ world.store time
        (world.engine.refreshed time).conversations.nodupKeys heffect hwrap
      exact hidle conversationId hdue.2
  | reinclusionRequest other requesterPk healingSnapshotHash nowMs =>
      cases hcall
      obtain ⟨rfl, haccepts⟩ := hof (world.engine.handleReinclusionRequest_wraps world.store time
        requesterPk healingSnapshotHash)
      exact hidle haccepts

end World

/-- In every run whose calls are made by admins or have nothing to rotate, every key wrap that
authoring, polling or a re-inclusion emits is that of an admin. -/
theorem run_rotatesAsAdmin [Primitives] [WireCodec] (engine : Engine) (commands : List KeyCommand)
    (hidle : RunMeets World.keyStep World.AdminOrIdle (.new engine) commands) :
    RunMeets World.keyStep World.RotatesAsAdmin (.new engine) commands :=
  hidle.imp_of_invariant (fun _ => True)
    (fun world command _ hcalm => ⟨trivial, world.rotatesAsAdmin_step command hcalm⟩) trivial

namespace RotationRights

/-! ## A member without ADMIN -/

open Reference

/-- A member's device, which the founder lets write messages only. -/
def member : World := .new (.new ⟨5⟩ ⟨1⟩ (some ⟨5⟩) (some ⟨25⟩) ⟨1, 0⟩)

/-- A certificate of the founder. -/
def grant (devicePk : PhysicalDevicePk) (permissions : Permissions) : DelegationCertificate :=
  let unsigned : DelegationCertificate :=
    { version := 1
      conversationId := room
      devicePk := devicePk
      permissions := permissions
      expiresAt := 10 ^ 12
      signature := ⟨0⟩ }
  { unsigned with signature := Reference.signature 1 (Primitives.delegationSignData unsigned) }

/-- A node of the founder after another. -/
def following (parent : MerkleNode) (seq : BitVec 64) (content : Content) : MerkleNode :=
  sign
    { parents := [hash parent]
      authorPk := ⟨1⟩
      senderPk := ⟨1⟩
      sequenceNumber := seq
      topologicalRank := parent.topologicalRank + 1
      networkTimestamp := 1000
      content := content
      metadata := []
      authentication := .ephemeralSignature ⟨0⟩
      powNonce := 0 }

def admission : MerkleNode :=
  following genesis 2 (.control (.authorizeDevice (grant ⟨5⟩ .message)))

def secondAdmission : MerkleNode :=
  following admission 3 (.control (.authorizeDevice (grant ⟨6⟩ .message)))

/-- The first key of the room, for the member's device. -/
def firstKey : MerkleNode :=
  following secondAdmission 4 (.keyWrap 0 (hash genesis) ⟨0⟩
    [⟨⟨5⟩, .zero, Bytes32.toBytes 25 ++ Bytes32.toBytes 77⟩])

def joining : List KeyCommand :=
  [genesis, admission, secondAdmission, firstKey].map fun node =>
    .call (.handleNode room node 1000 1)

def weekLater : Int := 1000 + 7 * 24 * 60 * 60 * 1000

/-- The founder makes the member an admin. -/
def promotion : MerkleNode :=
  following firstKey 5 (.control (.authorizeDevice (grant ⟨5⟩ .all)))

/-- The member writes a message when no rotation is due, and becomes an admin. -/
def promoted : List KeyCommand :=
  joining ++ [.call (.authorNode room (.text "hello") [] 2000),
    .call (.handleNode room promotion 3000 1)]

/-- Only the room can be due for a rotation. -/
theorem promoted_adminOrIdle : (member.keyRun promoted).AdminOrIdle (.poll weekLater) := by
  intro conversationId hdue
  have hkeys : ((member.keyRun promoted).engine.refreshed weekLater).conversations.keys =
      [room] := by
    decide +kernel
  by_cases hroom : conversationId = room
  · subst hroom
    decide +kernel
  · have hnone : ((member.keyRun promoted).engine.refreshed weekLater).conversations.get
        conversationId = none := by
      rw [AssocMap.get_eq_none_iff, hkeys, List.mem_singleton]
      exact hroom
    rw [Engine.checkRotationTriggers, Engine.establishedState, hnone] at hdue
    cases hdue

/-- A week later the background task of the new admin rotates the key of the room. -/
theorem run_rotatesAsAdmin_promoted :
    RunMeets World.keyStep World.RotatesAsAdmin member (promoted ++ [.poll weekLater]) ∧
      ∃ effect ∈ ((member.keyRun promoted).engine.poll (member.keyRun promoted).store
        weekLater).effects, effect.wrapped = some room := by
  have hjoined : RunMeets World.keyStep World.AdminOrIdle member promoted :=
    ⟨trivial, trivial, trivial, trivial, .inr (.inr ⟨rfl, by decide +kernel, nofun,
      fun _ _ _ _ => by decide +kernel⟩), trivial, trivial⟩
  exact ⟨run_rotatesAsAdmin _ _ (runMeets_append.mpr ⟨hjoined, promoted_adminOrIdle, trivial⟩),
    by decide +kernel⟩

/-- After a week the member's background task rotates the key of the room. -/
theorem member_rotates :
    ¬ RunMeets World.keyStep World.RotatesAsAdmin member (joining ++ [.poll weekLater]) := by
  intro hmeets
  have hadmin : ∀ (world : World), world.RotatesAsAdmin (.poll weekLater) →
      ∀ effect ∈ (world.engine.poll world.store weekLater).effects, effect.wrapped = some room →
        world.engine.adminAtHeads room weekLater = true :=
    fun _ hpoll effect hmem hwrapped => hpoll _ rfl effect hmem room hwrapped
  have hwraps : ∃ effect ∈
      ((member.keyRun joining).engine.poll (member.keyRun joining).store weekLater).effects,
      effect.wrapped = some room := by decide +kernel
  obtain ⟨effect, hmem, hwrapped⟩ := hwraps
  refine absurd (hadmin (member.keyRun joining) ?_ effect hmem hwrapped) (by decide +kernel)
  exact (runMeets_append.mp hmeets).2.1

end RotationRights

end MerkleTox.Core
