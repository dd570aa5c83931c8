import MerkleTox.Core.Traces

/-! # Own nodes and the rules of the validator

An engine does not validate the nodes that it authors. Their form of authentication, their
signature and their rank always pass the rules; the number of their parents, their sizes and
their distance from the admin track follow from what was put in and from the heads at hand.
-/

namespace MerkleTox.Core

open Library Proto

/-! ## The rules one by one -/

theorem firstDuplicate_eq_none {seen parents : List NodeHash} :
    firstDuplicate seen parents = none ↔ parents.Nodup ∧ ∀ parent ∈ parents, parent ∉ seen := by
  induction parents generalizing seen with
  | nil => simp [firstDuplicate]
  | cons parent rest ih =>
      rw [firstDuplicate]
      split
      next hseen =>
        have hmem : parent ∈ seen := List.contains_iff_mem.mp hseen
        simp [hmem]
      next hfresh =>
        have hnot : parent ∉ seen := fun hmem => hfresh (List.contains_iff_mem.mpr hmem)
        rw [ih]
        simp only [List.nodup_cons, List.mem_cons, not_or, forall_eq_or_imp]
        constructor
        · rintro ⟨hnodup, hrest⟩
          exact ⟨⟨fun hmem => (hrest parent hmem).1 rfl, hnodup⟩, hnot,
            fun other hmem => (hrest other hmem).2⟩
        · rintro ⟨⟨hhead, hnodup⟩, -, hrest⟩
          exact ⟨hnodup, fun other hmem => ⟨fun heq => hhead (heq ▸ hmem), hrest other hmem⟩⟩

namespace MerkleNode

variable {node : MerkleNode} {overlay : Overlay}

theorem validateRank_ok_iff :
    node.validateRank overlay = .ok () ↔
      (∀ parent ∈ node.parents, (overlay.getRank parent).isSome) ∧
        node.topologicalRank =
          if node.parents.isEmpty then 0
          else wrap64 ((node.parents.filterMap overlay.getRank).foldl max 0 + 1) := by
  have hmissing : (node.parents.filter fun parent => (overlay.getRank parent).isNone).isEmpty ↔
      ∀ parent ∈ node.parents, (overlay.getRank parent).isSome := by
    rw [List.isEmpty_iff, List.filter_eq_nil_iff]
    refine forall₂_congr fun parent _ => ?_
    cases overlay.getRank parent <;> simp
  unfold validateRank
  simp only
  generalize (if node.parents.isEmpty then 0
    else wrap64 ((node.parents.filterMap overlay.getRank).foldl max 0 + 1)) = expected
  split
  next hsome =>
    refine iff_of_false (fun h => nomatch h) fun h => ?_
    rw [Bool.not_eq_true'] at hsome
    exact Bool.eq_false_iff.mp hsome (hmissing.mpr h.1)
  next hnone =>
    have hknown := hmissing.mp (by simpa using hnone)
    split
    next hrank => exact iff_of_false (fun h => nomatch h) fun h => hrank h.2
    next hrank => exact iff_of_true rfl ⟨hknown, not_not.mp hrank⟩

theorem validateIsolation_ok_iff :
    node.validateIsolation overlay = .ok () ↔
      (node.nodeType = .admin → node.content.isSoftAnchor = false →
        ∀ parent ∈ node.parents, overlay.getNodeType parent = some .admin) := by
  unfold validateIsolation
  split
  next hadmin =>
    rw [Bool.and_eq_true, decide_eq_true_iff, Bool.not_eq_true'] at hadmin
    split
    next hall =>
      rw [List.find?_eq_none] at hall
      exact iff_of_true rfl fun _ _ parent hmem => by simpa using hall parent hmem
    next parent hfind =>
      have hmem := List.mem_of_find?_eq_some hfind
      have hother := List.find?_some hfind
      refine iff_of_false ?_ fun h => ?_
      · split <;> exact fun h => nomatch h
      · exact absurd (h hadmin.1 hadmin.2 parent hmem) (by simpa using hother)
  next hother =>
    refine iff_of_true rfl fun hadmin hsoft => ?_
    rw [hadmin, hsoft] at hother
    exact absurd rfl hother

theorem validateSoftAnchor_ok_iff :
    node.validateSoftAnchor overlay = .ok () ↔
      ∀ basisHash cert, node.content = .control (.softAnchor basisHash cert) →
        node.parents = [basisHash] ∧ ∀ length,
          overlay.getSoftAnchorChainLength basisHash = some length →
            length < maxSoftAnchorChain := by
  unfold validateSoftAnchor
  split
  next basisHash cert heq =>
    have hsame : ∀ {statement : NodeHash → Prop}, (∀ other otherCert,
        node.content = .control (.softAnchor other otherCert) → statement other) ↔
          statement basisHash := by
      intro statement
      constructor
      · exact fun h => h basisHash cert heq
      · intro h other otherCert hother
        rw [heq] at hother
        cases hother
        exact h
    rw [hsame]
    split
    next hparents => exact iff_of_false (fun h => nomatch h) fun h => hparents h.1
    next hparents =>
      rw [not_not] at hparents
      split
      next length hlength =>
        split
        next hlong =>
          refine iff_of_false (fun h => nomatch h) fun h => ?_
          exact absurd (h.2 length hlength) (by omega)
        next hshort =>
          refine iff_of_true rfl ⟨hparents, fun other hother => ?_⟩
          rw [hlength] at hother
          cases hother
          omega
      next hnone =>
        refine iff_of_true rfl ⟨hparents, fun other hother => ?_⟩
        rw [hnone] at hother
        cases hother
  next hother => exact iff_of_true rfl fun basisHash cert heq => absurd heq (hother basisHash cert)

/-- The nearest parent is close enough to the admin track. -/
def NearAdmin (overlay : Overlay) (parents : List NodeHash) : Prop :=
  ∃ least known, parentDistance overlay parents u64Max overlay.cache.adminDistances =
    (.ok least, known) ∧ least < maxAncestryHops

theorem validateAncestry_ok_iff :
    (node.validateAncestry overlay).1 = .ok () ↔
      (node.nodeType = .content → node.parents ≠ [] → NearAdmin overlay node.parents) := by
  unfold validateAncestry NearAdmin
  split
  next hchecked =>
    rw [Bool.and_eq_true, decide_eq_true_iff, Bool.not_eq_true', List.isEmpty_eq_false_iff]
      at hchecked
    split
    next least known heq =>
      split
      next hfar =>
        refine iff_of_false (fun h => nomatch h) fun h => ?_
        obtain ⟨least', known', heq', hnear⟩ := h hchecked.1 hchecked.2
        rw [heq] at heq'
        cases heq'
        omega
      next hnear =>
        exact iff_of_true rfl fun _ _ => ⟨least, known, heq, by omega⟩
    next error known heq =>
      refine iff_of_false (fun h => nomatch h) fun h => ?_
      obtain ⟨least', known', heq', -⟩ := h hchecked.1 hchecked.2
      rw [heq] at heq'
      cases heq'
  next hother =>
    refine iff_of_true rfl fun hcontent hparents => absurd ?_ hother
    rw [hcontent, List.isEmpty_eq_false_iff.mpr hparents]
    rfl

variable [Primitives]

theorem validate_ok_iff :
    (node.validate overlay).1 = .ok () ↔
      node.validateForm = .ok () ∧ node.validateSignature = .ok () ∧
        node.validateRank overlay = .ok () ∧ node.validateIsolation overlay = .ok () ∧
        node.validateSoftAnchor overlay = .ok () ∧ (node.validateAncestry overlay).1 = .ok () := by
  unfold validate
  cases node.validateForm <;> cases node.validateSignature <;>
    cases node.validateRank overlay <;> cases node.validateIsolation overlay <;>
    cases node.validateSoftAnchor overlay <;>
    simp [bind, Except.bind]

theorem validateForm_ok_iff (hauthentication : node.validateAuthentication = .ok ()) :
    node.validateForm = .ok () ↔
      node.parents.length ≤ maxParents ∧ node.parents.Nodup ∧
        node.metadata.length ≤ maxMetadataSize ∧
        node.metadata.length + Primitives.contentSize node.content ≤ maxMessageSize := by
  unfold validateForm
  split
  next hmany => exact iff_of_false (fun h => nomatch h) fun h => absurd h.1 (by omega)
  next hfew =>
    split
    next parent hduplicate =>
      refine iff_of_false (fun h => nomatch h) fun h => ?_
      rw [firstDuplicate_eq_none.mpr ⟨h.2.1, fun _ _ => List.not_mem_nil⟩] at hduplicate
      cases hduplicate
    next hdistinct =>
      have hnodup := (firstDuplicate_eq_none.mp hdistinct).1
      simp only
      split
      next hlong => exact iff_of_false (fun h => nomatch h) fun h => absurd h.2.2.1 (by omega)
      next hshort =>
        split
        next hlong => exact iff_of_false (fun h => nomatch h) fun h => absurd h.2.2.2 (by omega)
        next hfits =>
          rw [hauthentication]
          exact iff_of_true rfl ⟨by omega, hnodup, by omega, by omega⟩

end MerkleNode

/-! ## Own nodes -/

section OwnNodes

variable [Primitives]

/-- What the rules ask of an own node that its construction does not ensure. -/
structure Acceptable (overlay : Overlay) (conversationId : ConversationId) (content : Content)
    (metadata : Bytes) : Prop where
  parents : (Engine.ownParents overlay conversationId content).length ≤ maxParents
  distinct : (Engine.ownParents overlay conversationId content).Nodup
  small : metadata.length ≤ maxMetadataSize
  fits : metadata.length + Primitives.contentSize content ≤ maxMessageSize
  known : ∀ parent ∈ Engine.ownParents overlay conversationId content,
    (overlay.getRank parent).isSome
  isolated : content.nodeType = .admin → content.isSoftAnchor = false →
    ∀ parent ∈ Engine.ownParents overlay conversationId content,
      overlay.getNodeType parent = some .admin
  anchored : ∀ basisHash cert, content = .control (.softAnchor basisHash cert) →
    overlay.isVerified basisHash = true ∧ ∀ length,
      overlay.getSoftAnchorChainLength basisHash = some length → length < maxSoftAnchorChain
  near : content.nodeType = .content →
    Engine.ownParents overlay conversationId content ≠ [] →
      MerkleNode.NearAdmin overlay (Engine.ownParents overlay conversationId content)

namespace Engine

variable {engine : Engine} {store : InMemoryStore} {conversationId : ConversationId}
variable {node : MerkleNode} {nowMs : Int} {useEpoch : Option Nat}
variable {signed : Engine} {wire : Option WireNode}
variable {draft : MerkleNode} {content : Content}

/-- The form in which an own node is signed. -/
theorem signNode_authentication
    (heq : engine.signNode conversationId draft useEpoch nowMs = (.ok (node, wire), signed)) :
    (engine.needsDeviceSig draft useEpoch = true ∧ ∃ key, engine.selfSk = some key ∧
      node.authentication =
        .signature (Primitives.sign key (Primitives.serializeForAuth draft))) ∨
    (engine.needsDeviceSig draft useEpoch = false ∧
      ∃ signature, node.authentication = .ephemeralSignature signature) := by
  unfold signNode at heq
  simp only at heq
  split at heq
  next hdevice =>
    split at heq
    next => cases heq
    next key hkey =>
      cases heq
      exact .inl ⟨hdevice, key, hkey, rfl⟩
  next hephemeral =>
    refine .inr ⟨Bool.eq_false_iff.mpr hephemeral, ?_⟩
    split at heq
    next =>
      cases heq
      exact ⟨_, rfl⟩
    next =>
      cases heq
      exact ⟨_, rfl⟩

/-- The form of authentication fits the kind of the node. -/
theorem signNode_validateAuthentication
    (heq : engine.signNode conversationId draft useEpoch nowMs = (.ok (node, wire), signed)) :
    node.validateAuthentication = .ok () := by
  obtain ⟨authentication, hnode⟩ := engine.signNode_draft conversationId node nowMs heq
  have hcontent : node.content = draft.content := by rw [hnode]
  unfold MerkleNode.validateAuthentication
  rcases signNode_authentication heq with ⟨hdevice, key, -, hsigned⟩ | ⟨hdevice, signature, hsigned⟩
  · rw [hsigned]
    cases htype : node.nodeType with
    | admin => rfl
    | content =>
        have hallowed : node.allowsDeviceSig = true := by
          unfold MerkleNode.nodeType at htype
          unfold needsDeviceSig MerkleNode.nodeType at hdevice
          unfold MerkleNode.allowsDeviceSig MerkleNode.nodeType
          rw [hcontent] at htype ⊢
          rw [htype] at hdevice ⊢
          simp only [reduceCtorEq, decide_false, Bool.false_or, Bool.or_eq_true,
            Bool.and_eq_true] at hdevice
          rcases hdevice with hcontrol | ⟨hdistribution, -⟩
          · rw [hcontrol]
            exact Bool.or_true _
          · rw [hdistribution]
            rfl
        simp only [hallowed, if_true]
  · rw [hsigned]
    cases htype : node.nodeType with
    | content => rfl
    | admin =>
        unfold MerkleNode.nodeType at htype
        unfold needsDeviceSig MerkleNode.nodeType at hdevice
        rw [hcontent] at htype
        rw [htype] at hdevice
        simp at hdevice

/-- The signature of the device holds under its own key. -/
theorem signNode_validateSignature
    (hverify : ∀ key data, Primitives.verify (Primitives.verifyingKey key) data
      (Primitives.sign key data) = true)
    (hserialize : ∀ (node : MerkleNode) authentication, Primitives.serializeForAuth
      { node with authentication := authentication } = Primitives.serializeForAuth node)
    (hdevice : ∀ key, engine.selfSk = some key → draft.senderPk.bytes = Primitives.verifyingKey key)
    (heq : engine.signNode conversationId draft useEpoch nowMs = (.ok (node, wire), signed)) :
    node.validateSignature = .ok () ↔ node.validatePow = true := by
  obtain ⟨authentication, hnode⟩ := engine.signNode_draft conversationId node nowMs heq
  have hcontent : node.content = draft.content := by rw [hnode]
  unfold MerkleNode.validateSignature
  rcases signNode_authentication heq with ⟨-, key, hkey, hsigned⟩ | ⟨hephemeral, signature, hsigned⟩
  · have hholds : node.verifyAdminSignature = true := by
      unfold MerkleNode.verifyAdminSignature
      rw [hsigned]
      simp only
      rw [hnode, hserialize, hdevice key hkey]
      exact hverify key _
    split
    next =>
      split
      next hpow => exact iff_of_false (fun h => nomatch h) (by simpa using hpow)
      next hpow =>
        rw [hholds]
        exact iff_of_true rfl (by simpa using hpow)
    next hother =>
      -- Only genesis nodes carry a proof of work, and they are of the admin track.
      refine iff_of_true rfl ?_
      unfold MerkleNode.validatePow
      split
      next hgenesis =>
        refine absurd ?_ hother
        unfold MerkleNode.isDeviceAuthenticated MerkleNode.nodeType
        rw [hgenesis]
        rfl
      next => rfl
  · have hkind : node.isDeviceAuthenticated = false := by
      unfold MerkleNode.isDeviceAuthenticated MerkleNode.nodeType
      rw [hsigned, hcontent]
      unfold needsDeviceSig MerkleNode.nodeType at hephemeral
      simp only [Bool.or_eq_false_iff] at hephemeral
      rw [hephemeral.1.1]
      exact Bool.and_false _
    have hpow : node.validatePow = true := by
      unfold MerkleNode.validatePow
      rw [hsigned]
      split <;> rfl
    rw [hkind, hpow]
    exact iff_of_true rfl rfl

omit [Primitives] in
/-- The parents of a soft anchor are its basis exactly if that is verified. -/
theorem ownParents_softAnchor {overlay : Overlay} {basisHash : NodeHash}
    {cert : DelegationCertificate} (hcontent : content = .control (.softAnchor basisHash cert)) :
    ownParents overlay conversationId content = [basisHash] ↔
      overlay.isVerified basisHash = true := by
  unfold ownParents sortByKey
  rw [hcontent]
  cases hverified : overlay.isVerified basisHash with
  | true => simp [hverified]
  | false => simp [hverified]

/-- An own node passes the rules on the overlay it was drafted on exactly if what its
construction does not ensure holds. -/
theorem signNode_acceptable {metadata : Bytes}
    (hverify : ∀ key data, Primitives.verify (Primitives.verifyingKey key) data
      (Primitives.sign key data) = true)
    (hserialize : ∀ (node : MerkleNode) authentication, Primitives.serializeForAuth
      { node with authentication := authentication } = Primitives.serializeForAuth node)
    (hdevice : ∀ key, engine.selfSk = some key → engine.selfPk.bytes = Primitives.verifyingKey key)
    (heq : engine.signNode conversationId
      (engine.draftNode store conversationId content metadata useEpoch nowMs) useEpoch nowMs =
        (.ok (node, wire), signed)) :
    (node.validate (engine.overlay store)).1 = .ok () ↔
      Acceptable (engine.overlay store) conversationId content metadata ∧
        node.validatePow = true := by
  obtain ⟨authentication, hnode⟩ := engine.signNode_draft conversationId node nowMs heq
  have hparents : node.parents = ownParents (engine.overlay store) conversationId content := by
    rw [hnode]
    rfl
  have hcontent : node.content = content := by
    rw [hnode]
    rfl
  have hmetadata : node.metadata = metadata := by
    rw [hnode]
    rfl
  have hrank : node.topologicalRank = if node.parents.isEmpty then 0
      else wrap64 ((node.parents.filterMap (engine.overlay store).getRank).foldl max 0 + 1) := by
    rw [hnode]
    rfl
  -- The rules on the form, the proof of work and the rank; the draft meets the others as it is
  -- built.
  rw [MerkleNode.validate_ok_iff,
    MerkleNode.validateForm_ok_iff (signNode_validateAuthentication heq),
    signNode_validateSignature hverify hserialize hdevice heq, MerkleNode.validateRank_ok_iff,
    MerkleNode.validateIsolation_ok_iff, MerkleNode.validateSoftAnchor_ok_iff,
    MerkleNode.validateAncestry_ok_iff, and_iff_left hrank]
  unfold MerkleNode.nodeType
  rw [hparents, hcontent, hmetadata]
  constructor
  · rintro ⟨⟨hcount, hdistinct, hsmall, hfits⟩, hpow, hknown, hisolated, hanchor, hnear⟩
    refine ⟨⟨hcount, hdistinct, hsmall, hfits, hknown, hisolated, ?_, hnear⟩, hpow⟩
    intro basisHash cert hsoft
    obtain ⟨hbasis, hchain⟩ := hanchor basisHash cert hsoft
    exact ⟨(ownParents_softAnchor hsoft).mp hbasis, hchain⟩
  · rintro ⟨hacceptable, hpow⟩
    refine ⟨⟨hacceptable.parents, hacceptable.distinct, hacceptable.small,
      hacceptable.fits⟩, hpow, hacceptable.known, hacceptable.isolated, ?_, hacceptable.near⟩
    intro basisHash cert hsoft
    obtain ⟨hbasis, hchain⟩ := hacceptable.anchored basisHash cert hsoft
    exact ⟨(ownParents_softAnchor hsoft).mpr hbasis, hchain⟩

/-! ## author_node -/

/-- The epoch that a key wrap is authored for. -/
def authoredEpoch : Content → Option Nat
  | .keyWrap generation .. => some generation
  | _ => none

/-- The engine when it comes to the content itself: a rotation or a rekey that was due, and
a distribution just in time, are behind it. -/
def prepared (engine : Engine) (store : InMemoryStore) (conversationId : ConversationId)
    (content : Content) (nowMs : Int) : Engine :=
  ((engine.clearPending.refreshKeys store conversationId nowMs).2.shareJustInTime store
    conversationId content nowMs).2

theorem prepared_trace {origin : Sources} (content : Content) :
    Trace store nowMs origin engine []
      (engine.prepared store conversationId content nowMs) := by
  have hcleared : Trace store nowMs origin engine [] engine.clearPending := .clear (.refl engine)
  have hrefresh : Outcome.Traces (engine.clearPending.refreshKeys store conversationId nowMs) store
      nowMs origin engine.clearPending := refreshKeys_trace _ store conversationId nowMs
  refine (hcleared.nil_trans ?_).nil_trans
    (shareJustInTime_trace _ store conversationId nowMs content).lost
  unfold Outcome.Traces at hrefresh
  split at hrefresh
  next heq =>
    rw [heq]
    exact hrefresh.lost
  next heq =>
    rw [heq]
    exact hrefresh

theorem authorNodeOnce_eq (content : Content) (metadata : Bytes) :
    engine.authorNodeOnce store conversationId content metadata nowMs =
      match engine.clearPending.authoringBlocked conversationId content with
      | some error => (.error error, engine.clearPending)
      | none =>
          match engine.clearPending.refreshKeys store conversationId nowMs with
          | (.error error, engine) => (.error error, engine)
          | (.ok refreshed, fresh) =>
              match (fresh.shareJustInTime store conversationId content nowMs).2.authorWithRotation
                  store conversationId content metadata (authoredEpoch content) nowMs with
              | (.error error, engine) => (.error error, engine)
              | (.ok effects, engine) =>
                  (.ok (refreshed ++
                    (fresh.shareJustInTime store conversationId content nowMs).1 ++ effects),
                    engine) := rfl

/-- A call that succeeds has signed the content and writes it as verified. -/
theorem authorNode_emits {metadata : Bytes} {effects : List Effect} {after : Engine}
    (h : engine.authorNode store conversationId content metadata nowMs = (.ok effects, after)) :
    ∃ node wire signed, (engine.prepared store conversationId content nowMs).signNode
      conversationId ((engine.prepared store conversationId content nowMs).draftNode store
        conversationId content metadata (authoredEpoch content) nowMs) (authoredEpoch content)
        nowMs = (.ok (node, wire), signed) ∧
      .writeStore conversationId node true ∈ effects := by
  -- The automatic anchor only adds to the effects of the node itself.
  have honce : ∃ once drafted, engine.authorNodeOnce store conversationId content metadata nowMs =
      (.ok once, drafted) ∧ once ⊆ effects := by
    unfold authorNode at h
    split at h
    next => cases h
    next once drafted heq =>
      split at h
      · cases h
        exact ⟨effects, after, heq, List.Subset.refl _⟩
      · cases h
        exact ⟨once, drafted, heq, List.subset_append_left _ _⟩
  obtain ⟨once, drafted, honce, hsubset⟩ := honce
  rw [authorNodeOnce_eq] at honce
  split at honce
  · cases honce
  · split at honce
    next => cases honce
    next refreshed fresh hrefresh =>
      have hprepared : engine.prepared store conversationId content nowMs =
          (fresh.shareJustInTime store conversationId content nowMs).2 := by
        unfold prepared
        rw [hrefresh]
      rw [← hprepared] at honce
      split at honce
      next => cases honce
      next authored final hauthored =>
        unfold authorWithRotation authorNodeInternal at hauthored
        simp only at hauthored
        split at hauthored
        next => cases hauthored
        next node wire signed hsigned =>
          refine ⟨node, wire, signed, hsigned, hsubset ?_⟩
          split at hauthored
          next => cases hauthored
          next =>
            cases hauthored
            cases honce
            simp [ownEffects]

end Engine

/-- The node that `author_node` emits for its content passes the rules on the nodes that the
engine held when it drafted the node, exactly if the heads at hand, the sizes and a proof of
work allow it. -/
theorem authorNode_acceptable
    (hverify : ∀ key data, Primitives.verify (Primitives.verifyingKey key) data
      (Primitives.sign key data) = true)
    (hserialize : ∀ (node : MerkleNode) authentication, Primitives.serializeForAuth
      { node with authentication := authentication } = Primitives.serializeForAuth node)
    (engine : Engine) (store : InMemoryStore) (conversationId : ConversationId)
    (content : Content) (metadata : Bytes) (nowMs : Int)
    (hdevice : ∀ key, engine.selfSk = some key →
      engine.selfPk.bytes = Primitives.verifyingKey key)
    (effects : List Effect) (after : Engine)
    (hauthor : engine.authorNode store conversationId content metadata nowMs =
      (.ok effects, after)) :
    ∃ node, .writeStore conversationId node true ∈ effects ∧
      (∃ authentication, node =
        { (engine.prepared store conversationId content nowMs).draftNode store conversationId
            content metadata (Engine.authoredEpoch content) nowMs with
          authentication := authentication }) ∧
      ((node.validate ((engine.prepared store conversationId content nowMs).overlay store)).1 =
          .ok () ↔
        Acceptable ((engine.prepared store conversationId content nowMs).overlay store)
          conversationId content metadata ∧ node.validatePow = true) := by
  obtain ⟨node, wire, signed, hsigned, hwritten⟩ := Engine.authorNode_emits hauthor
  have htrace : Trace store nowMs .calls engine []
      (engine.prepared store conversationId content nowMs) := engine.prepared_trace content
  refine ⟨node, hwritten, Engine.signNode_draft _ conversationId node nowMs hsigned, ?_⟩
  refine Engine.signNode_acceptable hverify hserialize (fun key hkey => ?_) hsigned
  have hpk : (engine.prepared store conversationId content nowMs).selfPk = engine.selfPk :=
    congrArg Prod.fst htrace.device_eq
  have hsk : (engine.prepared store conversationId content nowMs).selfSk = engine.selfSk :=
    congrArg (fun device => device.2.2) htrace.device_eq
  rw [hpk]
  exact hdevice key (hsk.symm.trans hkey)

end OwnNodes

namespace Acceptance

/-! ## Seventeen heads -/

open Reference

/-- The device of the founder. -/
def founder : World := ⟨.new ⟨1⟩ ⟨1⟩ (some ⟨1⟩) none ⟨1, 0⟩, .new, [], []⟩

/-- A distribution that a device sends on the genesis alone. -/
def distribution (device : Bytes32) : MerkleNode :=
  sign
    { parents := [hash genesis]
      authorPk := ⟨device⟩
      senderPk := ⟨device⟩
      sequenceNumber := 1
      topologicalRank := 1
      networkTimestamp := 1000
      content := .senderKeyDistribution ⟨0⟩ [] ⟨0⟩ []
      metadata := []
      authentication := .ephemeralSignature ⟨0⟩
      powNonce := 0 }

/-- The founder after the genesis and the concurrent distributions of some devices. -/
def crowded (devices : List Bytes32) : World :=
  founder.run ((genesis :: devices.map distribution).map fun node =>
    .handleNode room node 1000 1)

def announcement : Content := .control (.announcement [] ⟨⟨0⟩, ⟨0⟩, 0⟩)

/-- The errors of the nodes that an outcome writes as verified, on the nodes of a store. -/
def rejections (outcome : Outcome) (store : InMemoryStore) : List (Option ValidationError) :=
  match outcome.1 with
  | .ok effects => (World.verifiedWrites effects).map fun written =>
      match (written.2.validate ⟨store, .new⟩).1 with
      | .ok () => none
      | .error error => some error
  | .error _ => []

theorem verify_reference (key : SigningKey) (data : Bytes) :
    Primitives.verify (Primitives.verifyingKey key) data (Primitives.sign key data) = true :=
  decide_eq_true rfl

theorem authorNode_acceptable_alone :
    ∃ effects after node,
      (crowded []).engine.authorNode (crowded []).store room announcement [] 2000 =
        (.ok effects, after) ∧
      .writeStore room node true ∈ effects ∧
      ((node.validate (((crowded []).engine.prepared (crowded []).store room announcement
          2000).overlay (crowded []).store)).1 = .ok () ↔
        Acceptable (((crowded []).engine.prepared (crowded []).store room announcement
          2000).overlay (crowded []).store) room announcement [] ∧ node.validatePow = true) := by
  have hauthors : ((crowded []).engine.authorNode (crowded []).store room announcement []
      2000).1.isOk = true := by decide +kernel
  cases heq : (crowded []).engine.authorNode (crowded []).store room announcement [] 2000 with
  | mk result after =>
      rw [heq] at hauthors
      cases result with
      | error error => cases hauthors
      | ok effects =>
          have hdevice : (crowded []).engine.selfSk = some ⟨1⟩ ∧
              (crowded []).engine.selfPk = ⟨1⟩ := by decide +kernel
          obtain ⟨node, hwritten, -, hiff⟩ := authorNode_acceptable verify_reference
            (fun _ _ => rfl) (crowded []).engine (crowded []).store room announcement [] 2000
            (fun key hkey => by
              rw [hdevice.1] at hkey
              cases hkey
              rw [hdevice.2]
              rfl) effects after heq
          exact ⟨effects, after, node, rfl, hwritten, hiff⟩

def devices : List Bytes32 := (List.range 16).map fun index => BitVec.ofNat 256 (20 + index)

/-- Sixteen concurrent heads and the genesis make one parent too many. -/
theorem crowded_rejected :
    rejections
      ((crowded devices).engine.authorNode (crowded devices).store room announcement [] 2000)
      (crowded devices).store = [some (.maxParentsExceeded 17 16)] := by
  decide +kernel

end Acceptance

end MerkleTox.Core
