import MerkleTox.Core.Passages

/-! # Parts of a call that rotate no key

What authors no control action is `Steady`: it leaves the rights of this device alone, the
other conversations, and in its own the time of the last rotation and, up to the messages
that it counts, their number.
-/

namespace MerkleTox.Core

open Library Proto

variable {rotate : Rotation}

/-- What decides on the rights of this device, apart from revocations. -/
def Engine.rights (engine : Engine) :=
  (engine.device, engine.identityManager.authorizedDevices, engine.selfCerts)

/-- A part of a call that rotates no key and counts a number of messages at most. -/
structure Steady (conversationId : ConversationId) (counted : Nat) (before after : Engine) :
    Prop where
  rights : after.rights = before.rights
  elsewhere : ∀ other, other ≠ conversationId →
    after.establishedState other = before.establishedState other
  clock : ∀ em', after.establishedState conversationId = some em' →
    ∃ em, before.establishedState conversationId = some em ∧
      em'.lastRotationTimeMs = em.lastRotationTimeMs ∧ em'.messageCount ≤ em.messageCount + counted

namespace Steady

variable {conversationId : ConversationId} {counted more : Nat} {before middle after : Engine}

theorem of_same (hrights : after.rights = before.rights)
    (hconversations : after.conversations = before.conversations) :
    Steady conversationId counted before after := by
  have hstate : ∀ other, after.establishedState other = before.establishedState other := by
    intro other
    unfold Engine.establishedState
    rw [hconversations]
  refine ⟨hrights, fun other _ => hstate other, fun em hem => ?_⟩
  exact ⟨em, (hstate conversationId).symm.trans hem, rfl, Nat.le_add_right _ _⟩

theorem refl (engine : Engine) : Steady conversationId counted engine engine := .of_same rfl rfl

theorem trans (hfirst : Steady conversationId counted before middle)
    (hsecond : Steady conversationId more middle after) :
    Steady conversationId (counted + more) before after where
  rights := hsecond.rights.trans hfirst.rights
  elsewhere other hne := (hsecond.elsewhere other hne).trans (hfirst.elsewhere other hne)
  clock := by
    intro em' hem'
    obtain ⟨em, hem, htime, hcount⟩ := hsecond.clock em' hem'
    obtain ⟨em₀, hem₀, htime₀, hcount₀⟩ := hfirst.clock em hem
    exact ⟨em₀, hem₀, htime.trans htime₀, by omega⟩

/-- A part that counts nothing, before others. -/
theorem next (hfirst : Steady conversationId 0 before middle)
    (hsecond : Steady conversationId counted middle after) :
    Steady conversationId counted before after := by
  have htrans := hfirst.trans hsecond
  rwa [Nat.zero_add] at htrans

/-- A part that counts nothing, after others. -/
theorem still (hfirst : Steady conversationId counted before middle)
    (hsecond : Steady conversationId 0 middle after) :
    Steady conversationId counted before after := hfirst.trans hsecond

theorem setEstablished {engine : Engine} {em em' : Established}
    (hstate : engine.establishedState conversationId = some em)
    (htime : em'.lastRotationTimeMs = em.lastRotationTimeMs)
    (hcount : em'.messageCount ≤ em.messageCount + counted) :
    Steady conversationId counted engine
      (engine.setConversation conversationId (.established em')) where
  rights := rfl
  elsewhere other hne := by
    unfold Engine.establishedState Engine.setConversation
    rw [AssocMap.get_insert_of_ne _ _ hne]
  clock := by
    intro em'' hem
    unfold Engine.establishedState Engine.setConversation at hem
    rw [AssocMap.get_insert_self] at hem
    cases hem
    exact ⟨em, hstate, htime, hcount⟩

theorem modifyEstablished {engine : Engine} {f : Established → Established}
    (htime : ∀ em, (f em).lastRotationTimeMs = em.lastRotationTimeMs)
    (hcount : ∀ em, (f em).messageCount ≤ em.messageCount + counted) :
    Steady conversationId counted engine (engine.modifyEstablished conversationId f) := by
  unfold Engine.modifyEstablished
  split
  next em hstate => exact .setEstablished hstate (htime em) (hcount em)
  next => exact .refl engine

theorem of_eq {Result : Type} {run : Result × Engine} {result : Result}
    (heq : run = (result, after)) (hsteady : Steady conversationId counted before run.2) :
    Steady conversationId counted before after := by
  rw [heq] at hsteady
  exact hsteady

end Steady

namespace Engine

/-- The messages that authoring a content counts, at most. -/
def countedMessages (content : Content) : Nat :=
  if content.isControl || content.isSenderKeyDistribution || content.isHistoryExport then 0 else 1

variable [Primitives]
variable {conversationId : ConversationId} {counted : Nat}
variable (engine : Engine) (store : InMemoryStore) (node : MerkleNode) (nowMs : Int)

theorem causalContext_steady :
    Steady conversationId counted engine (engine.causalContext store node).2 :=
  .of_same rfl rfl

theorem ensureSigningKey_steady (epoch : Nat) :
    Steady conversationId counted engine (engine.ensureSigningKey epoch).2 := by
  unfold ensureSigningKey
  split
  · exact .refl engine
  · exact .of_same rfl rfl

variable (content : Content)

omit [Primitives] in
theorem countMessage_steady :
    Steady conversationId 1 engine (engine.countMessage conversationId content) := by
  unfold countMessage
  split
  · exact .refl engine
  · exact .modifyEstablished (fun _ => rfl) fun em => Nat.mod_le _ _

omit [Primitives] in
theorem countMessage_export {content : Content} (hexport : content.isHistoryExport = true) :
    engine.countMessage conversationId content = engine := if_pos hexport

theorem contentPackKeys_steady :
    Steady conversationId 0 engine (engine.contentPackKeys conversationId node nowMs).2 := by
  unfold contentPackKeys
  split
  next => exact .refl engine
  next em hstate =>
    split
    · split
      · exact .refl engine
      · exact .of_same rfl rfl
    · obtain ⟨kept, hpeek⟩ := em.peekKeys_frame node.senderPk nowMs node.seq
      have hpeeked : Steady conversationId 0 engine (engine.setConversation conversationId
          (.established (em.peekKeys node.senderPk node.seq nowMs).2)) :=
        .setEstablished hstate (by rw [hpeek]; rfl) (by rw [hpeek]; exact Nat.le_refl _)
      split
      next heq =>
        rw [heq] at hpeeked
        exact hpeeked
      next heq =>
        rw [heq] at hpeeked
        exact hpeeked.next (.of_same rfl rfl)

theorem signNode_steady (useEpoch : Option Nat) :
    Steady conversationId (countedMessages node.content) engine
      (engine.signNode conversationId node useEpoch nowMs).2 := by
  unfold signNode
  simp only
  split
  · split <;> exact .refl engine
  · split
    · exact engine.ensureSigningKey_steady _
    · next hexception =>
      refine .still ?_
        ((contentPackKeys_steady _ node nowMs).next (ensureSigningKey_steady _ _))
      have hnot : node.content.isControl = false ∧
          node.content.isSenderKeyDistribution = false := by
        unfold MerkleNode.isExceptionNode at hexception
        simp only [Bool.or_eq_true, not_or, Bool.not_eq_true] at hexception
        exact ⟨hexception.1.2, hexception.2⟩
      cases hexport : node.content.isHistoryExport with
      | true =>
          rw [engine.countMessage_export hexport]
          exact .refl engine
      | false =>
          unfold countedMessages
          rw [hnot.1, hnot.2, hexport]
          exact engine.countMessage_steady node.content

theorem packLate_steady :
    Steady conversationId 0 engine (engine.packLate conversationId node nowMs).2 := by
  unfold packLate
  split
  · exact .refl engine
  · split
    · exact .refl engine
    · exact engine.contentPackKeys_steady node nowMs

theorem putOwn_steady (wire : Option WireNode) :
    Steady conversationId 0 engine (engine.putOwn conversationId node wire nowMs).2 := by
  have hnoted : Steady conversationId 0 engine (engine.noteAuthored conversationId node) :=
    .of_same rfl rfl
  unfold putOwn
  cases wire with
  | some wire => exact hnoted.next (.of_same rfl rfl)
  | none =>
      refine hnoted.next ((packLate_steady _ node nowMs).next ?_)
      simp only
      split
      · exact .refl _
      · exact .of_same rfl rfl

omit [Primitives] in
theorem applyDistribution_steady (ephemeralSigningPk : EphemeralSigningPk) :
    Steady conversationId 0 engine
      (engine.applyDistribution conversationId node ephemeralSigningPk) := by
  unfold applyDistribution
  simp only
  refine .next ?_ (.modifyEstablished (fun em => ?_) fun em => ?_)
  · split
    · exact .of_same rfl rfl
    · exact .refl engine
  · split <;> rfl
  · split <;> exact Nat.le_refl _

/-- The action of a node that is no control action concerns ratchets and signing keys. -/
theorem applyAction_steady (ctx : CausalContext) (hcontrol : node.content.isControl = false) :
    Steady conversationId 0 engine
      (engine.applyAction rotate ctx conversationId node nowMs).2 := by
  unfold applyAction
  split
  all_goals first
    | exact engine.applyDistribution_steady node _
    | exact .refl engine
    | next hcontent =>
        rw [hcontent] at hcontrol
        cases hcontrol

theorem advanceRatchet_steady :
    Steady conversationId 0 engine (engine.advanceRatchet conversationId node nowMs).2 := by
  unfold advanceRatchet
  split
  next => exact .refl engine
  next em hstate =>
    split
    · exact .setEstablished hstate rfl (Nat.le_refl _)
    · obtain ⟨kept, ratchets, history, hframe⟩ :=
        advanceEstablished_frame conversationId node nowMs em
      exact .setEstablished hstate (by rw [hframe]) (by rw [hframe]; exact Nat.le_refl _)

theorem updateHeads_steady :
    Steady conversationId 0 engine (engine.updateHeads store conversationId node).2 := by
  unfold updateHeads
  simp only
  split <;> exact .of_same rfl rfl

theorem applySideEffects_steady (hcontrol : node.content.isControl = false) :
    Steady conversationId 0 engine
      (engine.applySideEffects rotate store conversationId node nowMs).2 := by
  unfold applySideEffects
  refine (engine.causalContext_steady store node).next ?_
  simp only
  split
  next heq => exact .of_eq heq (applyAction_steady _ node nowMs _ hcontrol)
  next heq =>
    refine (Steady.of_eq heq (applyAction_steady _ node nowMs _ hcontrol)).next ?_
    exact (advanceRatchet_steady _ node nowMs).next (updateHeads_steady _ store node)

/-- What authors no control action is steady. -/
theorem authorNodeInternal_steady (metadata : Bytes) (useEpoch : Option Nat)
    (hcontrol : content.isControl = false) :
    Steady conversationId (countedMessages content) engine
      (engine.authorNodeInternal rotate store conversationId content metadata useEpoch nowMs).2 := by
  have hsign : Steady conversationId (countedMessages content) engine
      (engine.signNode conversationId (engine.draftNode store conversationId content metadata
        useEpoch nowMs) useEpoch nowMs).2 :=
    engine.signNode_steady (engine.draftNode store conversationId content metadata useEpoch nowMs)
      nowMs useEpoch
  unfold authorNodeInternal
  simp only
  split
  next heq =>
    rw [heq] at hsign
    exact hsign
  next node wire signed heq =>
    rw [heq] at hsign
    obtain ⟨authentication, hnode⟩ := engine.signNode_draft conversationId node nowMs heq
    have hcontent : node.content = content := congrArg MerkleNode.content hnode
    have hside : Steady conversationId 0 (signed.putOwn conversationId node wire nowMs).2
        ((signed.putOwn conversationId node wire nowMs).2.applySideEffects rotate store
          conversationId node nowMs).2 :=
      applySideEffects_steady _ store node nowMs (hcontent ▸ hcontrol)
    have hput : Steady conversationId (countedMessages content + 0) engine
        (signed.putOwn conversationId node wire nowMs).2 :=
      hsign.trans (signed.putOwn_steady node nowMs wire)
    split
    next heq =>
      rw [heq] at hside
      exact hput.trans hside
    next heq =>
      rw [heq] at hside
      have hplain : changesAuthorization node.content = false := by
        rw [hcontent]
        cases content with
        | control action => cases hcontrol
        | _ => rfl
      rw [hplain]
      exact hput.trans hside

omit [Primitives] in
/-- Listing the active devices changes caches only. -/
theorem listActive_steady (ctx : CausalContext) (rank : Nat) :
    Steady conversationId 0 engine (engine.withIdentity
      (engine.identityManager.listActiveAuthorizedDevices ctx conversationId nowMs rank).2) := by
  refine .of_same ?_ rfl
  have hrecords : (engine.identityManager.listActiveAuthorizedDevices ctx conversationId nowMs
      rank).2.authorizedDevices = engine.identityManager.authorizedDevices := by
    refine listActiveAuthorizedDevices_invariant conversationId nowMs
      (fun manager => manager.authorizedDevices = engine.identityManager.authorizedDevices)
      (fun manager devicePk logicalPk hsame => ?_) rfl
    obtain ⟨paths, hquery⟩ := manager.isAuthorized_frame ctx conversationId devicePk logicalPk
      nowMs rank
    rw [hquery]
    exact hsame
  unfold rights withIdentity
  rw [hrecords]
  rfl

omit [Primitives] in
theorem steady_rule : KeyRule conversationId nowMs
    fun before _ after => Steady conversationId 0 before after where
  refl := .refl
  trans hfirst hsecond := hfirst.next hsecond
  lost h := h
  drawn := by
    rintro before after ⟨rng, keys, announcements, rfl⟩
    exact .of_same rfl rfl
  rekeyed engine f hrekeys := by
    refine .modifyEstablished (fun em => ?_) fun em => ?_ <;>
    · obtain ⟨keys, count, time, sent, heq⟩ := hrekeys em
      simp [heq]
  listed engine := engine.listActive_steady nowMs

/-- A node that hands out a sender key counts as no message. -/
theorem authorKeys_steady (rotate : Rotation) : AuthorsKeys store conversationId nowMs
    (fun before _ after => Steady conversationId 0 before after) rotate := by
  intro engine content metadata useEpoch hkeys
  have hcontrol : content.isControl = false := by
    cases content with
    | senderKeyDistribution => rfl
    | _ => cases hkeys
  have hcounted : countedMessages content = 0 := by
    unfold countedMessages
    rw [hkeys, Bool.or_true, Bool.true_or, if_pos rfl]
  refine .of_engine (hcounted ▸ ?_)
  exact engine.authorNodeInternal_steady store nowMs content metadata useEpoch hcontrol

theorem senderRekey_steady :
    Steady conversationId 0 engine (engine.senderRekey store conversationId nowMs).2 :=
  ((steady_rule nowMs).senderRekey (authorKeys_steady store nowMs _) engine).engine

theorem authorKeyWrap_steady (newGeneration : Nat) (kConv : KConv) (postRevocation : Bool) :
    Steady conversationId 1 engine (engine.authorKeyWrap rotate store conversationId newGeneration
      kConv postRevocation nowMs).2 := by
  have rule : KeyRule conversationId nowMs fun before _ after =>
    Steady conversationId 0 before after := steady_rule nowMs
  have hrecipients := rule.recipients engine engine.rng.next.2
  unfold authorKeyWrap
  simp only
  split
  · refine .next ?_ (authorNodeInternal_steady _ store nowMs (.keyWrap _ _ _ _) _ _ rfl)
    exact hrecipients.next (rule.wrapFor _ _ _ _ _)
  · exact Steady.next (hrecipients.next (rule.wrapFor _ _ _ _ _)) (.refl _)

/-- A rotation leaves the other conversations alone. -/
theorem rotateConversationKey_elsewhere (postRevocation : Bool) {other : ConversationId}
    (hne : other ≠ conversationId) :
    (rotateConversationKey store conversationId nowMs engine postRevocation).2.establishedState
      other = engine.establishedState other := by
  have hinstall : ∀ (engine : Engine) kConv,
      (engine.installKey conversationId kConv nowMs).2.2.establishedState other =
        engine.establishedState other := by
    intro engine kConv
    have hset : ∀ em, (engine.setConversation conversationId
        (.established em)).establishedState other = engine.establishedState other := by
      intro em
      unfold establishedState setConversation
      rw [AssocMap.get_insert_of_ne _ _ hne]
    unfold installKey
    split <;> exact hset _
  have hdistribution : ∀ (engine : Engine) newGeneration oldGeneration,
      Steady conversationId 0 engine (engine.authorSenderKeyDistribution
        (fun engine _ => (.ok [], engine)) store conversationId newGeneration oldGeneration
        nowMs).2 :=
    fun engine _ _ => ((steady_rule nowMs).authorSenderKeyDistribution
      (authorKeys_steady store nowMs _) engine _ _).engine
  unfold rotateConversationKey rotateConversationKeyWith
  refine .trans ?_ (hinstall (engine.clearPending.withRng engine.clearPending.rng.next.2)
    ⟨engine.clearPending.rng.next.1⟩)
  simp only
  split
  next heq =>
    exact (Steady.of_eq heq (authorKeyWrap_steady _ store nowMs _ _ _)).elsewhere other hne
  next heq =>
    refine .trans ?_ ((Steady.of_eq heq (authorKeyWrap_steady _ store nowMs _ _ _)).elsewhere
      other hne)
    split
    next heq =>
      exact (Steady.of_eq heq
        (hdistribution _ _ _)).elsewhere other hne
    next heq =>
      refine .trans ?_ ((Steady.of_eq heq
        (hdistribution _ _ _)).elsewhere other hne)
      unfold dropSigningKey
      split <;> rfl

theorem shareJustInTime_steady :
    Steady conversationId 0 engine
      (engine.shareJustInTime store conversationId content nowMs).2 :=
  (steady_rule nowMs).shareJustInTime (authorKeys_steady store nowMs _) engine content

/-- Without a rotation due, refreshing the keys is at most a rekey of this device. -/
theorem refreshKeys_steady
    (hdue : engine.checkRotationTriggers conversationId nowMs = false) :
    Steady conversationId 0 engine (engine.refreshKeys store conversationId nowMs).2 := by
  unfold refreshKeys
  rw [hdue, if_neg Bool.false_ne_true]
  split
  · exact engine.senderRekey_steady store nowMs
  · exact .refl engine

omit [Primitives] in
theorem clearPending_steady : Steady conversationId 0 engine engine.clearPending := .of_same rfl rfl

theorem authorNodeOnce_steady (metadata : Bytes)
    (hdue : engine.checkRotationTriggers conversationId nowMs = false)
    (hcontrol : content.isControl = false) :
    Steady conversationId (countedMessages content) engine
      (engine.authorNodeOnce store conversationId content metadata nowMs).2 := by
  have hrefresh : Steady conversationId 0 engine.clearPending
      (engine.clearPending.refreshKeys store conversationId nowMs).2 :=
    refreshKeys_steady _ store nowMs hdue
  unfold authorNodeOnce
  refine engine.clearPending_steady.next ?_
  simp only
  split
  · exact .refl _
  · split
    next heq =>
      rw [heq] at hrefresh
      exact (hrefresh.next (.refl _))
    next heq =>
      rw [heq] at hrefresh
      refine hrefresh.next ((shareJustInTime_steady _ store nowMs content).next ?_)
      split <;>
      next heq =>
        exact .of_eq heq (authorNodeInternal_steady _ store nowMs content _ _ hcontrol)

omit [Primitives] in
theorem checkRotationTriggers_congr {engine engine' : Engine}
    (hstate : engine'.establishedState conversationId = engine.establishedState conversationId) :
    engine'.checkRotationTriggers conversationId nowMs =
      engine.checkRotationTriggers conversationId nowMs := by
  unfold checkRotationTriggers
  rw [hstate]

omit [Primitives] in
/-- After a message that no rotation was due for, one is due only if the message was the last
of its epoch. -/
theorem last_of_due {before : Engine} (hsteady : Steady conversationId counted before engine)
    (hdue : before.checkRotationTriggers conversationId nowMs = false) (hcounted : counted ≤ 1)
    (hnow : engine.checkRotationTriggers conversationId nowMs = true) :
    ∃ em em', before.establishedState conversationId = some em ∧
      em.messageCount + counted = messagesPerEpoch ∧
      engine.establishedState conversationId = some em' ∧ em'.messageCount = messagesPerEpoch := by
  unfold checkRotationTriggers at hnow hdue
  cases hstate : engine.establishedState conversationId with
  | none =>
      rw [hstate] at hnow
      cases hnow
  | some em' =>
      obtain ⟨em, hem, htime, hcount⟩ := hsteady.clock em' hstate
      rw [hem] at hdue
      rw [hstate] at hnow
      simp only [Option.any_some, Bool.or_eq_true, Bool.or_eq_false_iff, decide_eq_true_iff,
        decide_eq_false_iff_not] at hnow hdue
      rw [htime] at hnow
      refine ⟨em, em', hem, ?_, rfl, ?_⟩ <;> omega

end Engine

end MerkleTox.Core
