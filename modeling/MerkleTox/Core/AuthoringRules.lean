import MerkleTox.Core.Authoring

/-! # Rules for calls that author nodes

A relation between the engine before a part of a call, the effects of the part and the engine
after it. Where the relation composes and holds of the few things that the authoring functions
do themselves, it holds of all of them.

Distributing keys, `KeyRule`, is one part of it; a rotation of the conversation key does more, and
authoring any node may rotate, `AuthoringRule`.
-/

namespace MerkleTox.Core

open Library Proto

/-- What relates an engine, the effects of a part of a call and the engine after it. -/
abbrev CallRelation := Engine → List Effect → Engine → Prop

/-- A call that may fail: a failure loses its effects. -/
def Outcome.Follows (outcome : Outcome) (rel : CallRelation) (before : Engine) : Prop :=
  match outcome with
  | (.ok effects, after) => rel before effects after
  | (.error _, after) => rel before [] after

namespace Outcome.Follows

variable {outcome : Outcome} {rel : CallRelation} {before after : Engine}

theorem ok {effects : List Effect} (h : outcome.Follows rel before)
    (heq : outcome = (.ok effects, after)) : rel before effects after := by
  rw [heq] at h
  exact h

theorem error {error : MerkleToxError} (h : outcome.Follows rel before)
    (heq : outcome = (.error error, after)) : rel before [] after := by
  rw [heq] at h
  exact h

/-- A relation that does not look at the effects. -/
theorem engine {rel : Engine → Engine → Prop}
    (h : outcome.Follows (fun before _ after => rel before after) before) :
    rel before outcome.2 := by
  unfold Outcome.Follows at h
  split at h
  · exact h
  · exact h

theorem of_engine {rel : Engine → Engine → Prop} (h : rel before outcome.2) :
    outcome.Follows (fun before _ after => rel before after) before := by
  unfold Outcome.Follows
  split
  · exact h
  · exact h

end Outcome.Follows

/-- A change of what nothing but the authoring of nodes reads: the random numbers, the own signing
keys and the pre-keys of others. -/
def Engine.Drawn (before after : Engine) : Prop :=
  ∃ rng keys announcements, after = { before with
    rng := rng
    selfEphemeralSigningKeys := keys
    peerAnnouncements := announcements }

/-- A change of this device's own sender keys in a conversation. -/
def Established.Rekeys (f : Established → Established) : Prop :=
  ∀ em, ∃ keys count time sent, f em = { em with
    senderKeys := keys
    selfMessageCount := count
    selfLastRekeyTimeMs := time
    sharedKeysSentTo := sent }

/-- A relation that what surrounds the authoring of a node with keys respects. -/
structure KeyRule (conversationId : ConversationId) (nowMs : Int) (rel : CallRelation) : Prop where
  refl : ∀ engine, rel engine [] engine
  trans : ∀ {before middle after first second}, rel before first middle →
    rel middle second after → rel before (first ++ second) after
  lost : ∀ {before effects after}, rel before effects after → rel before [] after
  drawn : ∀ {before after}, before.Drawn after → rel before [] after
  rekeyed : ∀ engine {f}, Established.Rekeys f →
    rel engine [] (engine.modifyEstablished conversationId f)
  listed : ∀ engine ctx rank, rel engine [] (engine.withIdentity
    (engine.identityManager.listActiveAuthorizedDevices ctx conversationId nowMs rank).2)

section Rules

variable [Primitives]

/-- Authoring a node that hands out a sender key respects a relation. -/
def AuthorsKeys (store : InMemoryStore) (conversationId : ConversationId) (nowMs : Int)
    (rel : CallRelation) (rotate : Rotation) : Prop :=
  ∀ (engine : Engine) (content : Content) metadata useEpoch,
    content.isSenderKeyDistribution = true →
    (engine.authorNodeInternal rotate store conversationId content metadata useEpoch
      nowMs).Follows rel engine

/-- A relation that authoring a node respects if its rotations do. -/
structure AuthoringRule (store : InMemoryStore) (conversationId : ConversationId) (nowMs : Int)
    (rel : CallRelation) (authored : Content → Prop) : Prop
    extends KeyRule conversationId nowMs rel where
  keys : ∀ content, content.isKeyWrap = true ∨ content.isSenderKeyDistribution = true →
    authored content
  author : ∀ {rotate : Rotation} (engine : Engine) content metadata useEpoch, authored content →
    (∀ engine flag, (rotate engine flag).Follows rel engine) →
    (engine.authorNodeInternal rotate store conversationId content metadata useEpoch
      nowMs).Follows rel engine
  cleared : ∀ engine, rel engine [] engine.clearPending
  installed : ∀ engine kConv, rel engine [] (engine.installKey conversationId kConv nowMs).2.2
  noted : ∀ engine epoch kConv, rel engine [.writeConversationKey conversationId epoch kConv] engine
  wanted : ∀ engine, rel engine [.historySnapshotNeeded conversationId] engine

end Rules

/-! ## Steps -/

namespace Engine

variable (engine : Engine)

theorem drawn_withRng (rng : Rng) : engine.Drawn (engine.withRng rng) :=
  ⟨rng, _, _, rfl⟩

theorem drawn_ensureSigningKey [Primitives] (epoch : Nat) :
    engine.Drawn (engine.ensureSigningKey epoch).2 := by
  unfold ensureSigningKey
  split
  · exact ⟨_, _, _, rfl⟩
  · exact ⟨_, _, _, rfl⟩

theorem drawn_consumeRecipientOpk [Primitives] (recipientPk : PhysicalDevicePk)
    (nowMs : Int) : engine.Drawn (engine.consumeRecipientOpk recipientPk nowMs).2 := by
  unfold consumeRecipientOpk
  split
  · exact ⟨_, _, _, rfl⟩
  · simp only
    split
    · exact ⟨_, _, _, rfl⟩
    · exact ⟨_, _, _, rfl⟩

theorem drawn_dropSigningKey (epoch : Option Nat) :
    engine.Drawn (engine.dropSigningKey epoch) := by
  cases epoch with
  | none => exact ⟨_, _, _, rfl⟩
  | some epoch => exact ⟨_, _, _, rfl⟩

end Engine

/-! ## Keys -/

namespace KeyRule

variable {conversationId : ConversationId} {nowMs : Int} {rel : CallRelation}

section Composed

variable (rule : KeyRule conversationId nowMs rel)
include rule

/-- A part without effects, before others. -/
theorem next {before middle after : Engine} {effects : List Effect} (hfirst : rel before [] middle)
    (hsecond : rel middle effects after) : rel before effects after :=
  rule.trans hfirst hsecond

/-- A part without effects, after others. -/
theorem still {before middle after : Engine} {effects : List Effect}
    (hfirst : rel before effects middle) (hsecond : rel middle [] after) :
    rel before effects after := by
  have htrans := rule.trans hfirst hsecond
  rwa [List.append_nil] at htrans

theorem after {outcome : Outcome} {before middle : Engine} (hfirst : rel before [] middle)
    (hsecond : outcome.Follows rel middle) : outcome.Follows rel before := by
  unfold Outcome.Follows at hsecond ⊢
  split at hsecond
  · exact rule.next hfirst hsecond
  · exact rule.next hfirst hsecond

theorem noteSent (engine : Engine) (devices : List PhysicalDevicePk) :
    rel engine [] (engine.noteSent conversationId devices) :=
  rule.rekeyed engine fun _ => ⟨_, _, _, _, rfl⟩

theorem wrapFor [Primitives] (engine : Engine) (ephemeralSk : EphemeralX25519Sk) (authenticated : Bool)
    (payload : Bytes) (recipients : List PhysicalDevicePk) :
    rel engine [] (engine.wrapFor ephemeralSk authenticated payload nowMs recipients).2 := by
  induction recipients generalizing engine with
  | nil => exact rule.refl engine
  | cons recipientPk rest ih =>
      unfold Engine.wrapFor
      split
      · exact ih engine
      · exact rule.next (rule.drawn (engine.drawn_consumeRecipientOpk recipientPk nowMs)) (ih _)

/-- The active devices are listed after a random number was drawn. -/
theorem recipients (engine : Engine) (rng : Rng) :
    rel engine [] ((engine.withRng rng).activeRecipients conversationId nowMs).2 :=
  rule.next (rule.drawn (engine.drawn_withRng rng)) (rule.listed _ _ _)

end Composed

section Distributed

variable [Primitives] {store : InMemoryStore} {rotate : Rotation}
variable (rule : KeyRule conversationId nowMs rel)
variable (hauthor : AuthorsKeys store conversationId nowMs rel rotate)
include rule hauthor

theorem distribute (engine : Engine) (epoch : Nat) (payload : Bytes)
    (recipients : List PhysicalDevicePk) (ephemeralSigningPk : EphemeralSigningPk)
    (disclosedKeys : List EphemeralSigningSk) (ephemeralSk : EphemeralX25519Sk) :
    (engine.distribute rotate store conversationId epoch payload recipients ephemeralSigningPk
      disclosedKeys ephemeralSk nowMs).Follows rel engine := by
  unfold Engine.distribute
  refine rule.after ?_ (hauthor _ _ _ _ rfl)
  exact rule.next (rule.wrapFor engine ephemeralSk true payload recipients) (rule.noteSent _ _)

theorem authorSenderKeyDistribution (engine : Engine) (newGeneration : Nat)
    (oldGeneration : Option Nat) :
    (engine.authorSenderKeyDistribution rotate store conversationId newGeneration oldGeneration
      nowMs).Follows rel engine := by
  have hkeyed : ∀ (engine : Engine) (rng : Rng) (senderKey : SenderKey), rel engine []
      ((engine.withRng rng).setOwnSenderKey conversationId newGeneration senderKey) :=
    fun engine rng _ => rule.next (rule.drawn (engine.drawn_withRng rng))
      (rule.rekeyed _ fun _ => ⟨_, _, _, _, rfl⟩)
  unfold Engine.authorSenderKeyDistribution
  refine rule.after (rule.drawn (engine.drawn_ensureSigningKey newGeneration)) ?_
  simp only
  split
  · exact hkeyed _ _ _
  · refine rule.after ?_ (rule.distribute hauthor _ _ _ _ _ _ _)
    exact rule.next (hkeyed _ _ _) (rule.listed _ _ _)

end Distributed

/-! The node that hands out the keys may rotate them. -/

section Rotated

variable [Primitives] {store : InMemoryStore}
variable (rule : KeyRule conversationId nowMs rel)
variable (hauthor : AuthorsKeys store conversationId nowMs rel
  (Engine.rotateConversationKey store conversationId nowMs))
include rule hauthor

theorem senderRekey (engine : Engine) :
    (engine.senderRekey store conversationId nowMs).Follows rel engine := by
  unfold Engine.senderRekey
  split
  · exact rule.refl engine
  · simp only
    refine rule.after ?_ (rule.distribute hauthor _ _ _ _ _ _ _)
    refine rule.next ?_ (rule.recipients _ _)
    refine rule.next ?_ (rule.drawn (Engine.drawn_ensureSigningKey _ _))
    refine rule.next (rule.drawn (engine.drawn_withRng engine.rng.next.2)) ?_
    exact rule.rekeyed _ fun _ => ⟨_, _, _, _, rfl⟩

theorem authorJitSenderKeyDistribution (engine : Engine) (targets : List PhysicalDevicePk) :
    (engine.authorJitSenderKeyDistribution store conversationId targets nowMs).Follows rel
      engine := by
  unfold Engine.authorJitSenderKeyDistribution
  split
  · exact rule.refl engine
  · exact rule.refl engine
  · split
    · exact rule.refl engine
    · simp only
      refine rule.after ?_ (hauthor _ _ _ _ rfl)
      refine rule.next ?_ (rule.drawn (Engine.drawn_ensureSigningKey _ _))
      refine rule.next ?_ (rule.noteSent _ _)
      exact rule.next (rule.drawn (engine.drawn_withRng engine.rng.next.2)) (rule.wrapFor _ _ _ _ _)

theorem shareJustInTime (engine : Engine) (content : Content) :
    rel engine (engine.shareJustInTime store conversationId content nowMs).1
      (engine.shareJustInTime store conversationId content nowMs).2 := by
  unfold Engine.shareJustInTime
  simp only
  split
  · exact rule.refl engine
  · split
    · exact rule.refl engine
    · have hlisted := rule.listed engine .global u64Max
      split
      · exact hlisted
      · have hshared := rule.authorJitSenderKeyDistribution hauthor
        split
        next heq => exact rule.next hlisted ((hshared _ _).ok heq)
        next heq => exact rule.next hlisted ((hshared _ _).error heq)

end Rotated

end KeyRule

/-! ## Any node -/

namespace AuthoringRule

variable [Primitives] {store : InMemoryStore} {conversationId : ConversationId} {nowMs : Int}
variable {rel : CallRelation} {authored : Content → Prop}
variable (rule : AuthoringRule store conversationId nowMs rel authored)
include rule

section Rotation

variable {rotate : Rotation}
variable (hrotate : ∀ engine flag, (rotate engine flag).Follows rel engine)
include hrotate

theorem authorKeyWrap (engine : Engine) (newGeneration : Nat) (kConv : KConv)
    (postRevocation : Bool) :
    (engine.authorKeyWrap rotate store conversationId newGeneration kConv postRevocation
      nowMs).Follows rel engine := by
  have hrecipients := rule.recipients engine engine.rng.next.2
  unfold Engine.authorKeyWrap
  simp only
  split
  · refine rule.after ?_ (rule.author _ _ _ _ (rule.keys _ (.inl rfl)) hrotate)
    exact rule.next hrecipients (rule.wrapFor _ _ _ _ _)
  · exact rule.next hrecipients (rule.wrapFor _ _ _ _ _)

theorem rotateConversationKeyWith (engine : Engine) (postRevocation : Bool) :
    (engine.rotateConversationKeyWith rotate store conversationId nowMs postRevocation).Follows
      rel engine := by
  have hauthor : AuthorsKeys store conversationId nowMs rel rotate :=
    fun engine content _ _ hkeys =>
      rule.author engine content _ _ (rule.keys content (.inr hkeys)) hrotate
  have hdrawn := rule.drawn (engine.clearPending.drawn_withRng engine.clearPending.rng.next.2)
  unfold Engine.rotateConversationKeyWith
  refine rule.after (rule.next (rule.cleared engine) (rule.next hdrawn
    (rule.installed _ ⟨engine.clearPending.rng.next.1⟩))) ?_
  simp only
  split
  next heq => exact (rule.authorKeyWrap hrotate _ _ _ _).error heq
  next wrapEffects wrapped heq =>
    have hwrap := (rule.authorKeyWrap hrotate _ _ _ _).ok heq
    have hdistribution := rule.authorSenderKeyDistribution hauthor wrapped
    split
    next heq => exact rule.next (rule.lost hwrap) ((hdistribution _ _).error heq)
    next heq =>
      refine rule.trans (rule.noted _ _ _) ?_
      exact rule.still (rule.trans hwrap ((hdistribution _ _).ok heq))
        (rule.drawn (Engine.drawn_dropSigningKey _ _))

end Rotation

variable (engine : Engine)

theorem rotateConversationKey (postRevocation : Bool) :
    (Engine.rotateConversationKey store conversationId nowMs engine postRevocation).Follows rel
      engine :=
  rule.rotateConversationKeyWith (fun engine _ => show Outcome.Follows (.ok [], engine) rel engine
    from rule.refl engine) engine postRevocation

theorem authorWithRotation (content : Content) (metadata : Bytes)
    (useEpoch : Option Nat) (hcontent : authored content) :
    (engine.authorWithRotation store conversationId content metadata useEpoch nowMs).Follows rel
      engine :=
  rule.author engine content metadata useEpoch hcontent rule.rotateConversationKey

theorem authorKeys : AuthorsKeys store conversationId nowMs rel
    (Engine.rotateConversationKey store conversationId nowMs) :=
  fun engine content _ _ hkeys =>
    rule.authorWithRotation engine _ _ _ (rule.keys content (.inr hkeys))

theorem refreshKeys :
    (engine.refreshKeys store conversationId nowMs).Follows rel engine := by
  have hrotation := rule.rotateConversationKey engine false
  unfold Engine.refreshKeys
  split
  · split
    next heq => exact rule.trans (hrotation.ok heq) (rule.wanted _)
    next heq => exact hrotation.error heq
  · split
    · exact rule.senderRekey rule.authorKeys engine
    · exact rule.refl engine

theorem authorNodeOnce (content : Content) (metadata : Bytes)
    (hcontent : authored content) :
    (engine.authorNodeOnce store conversationId content metadata nowMs).Follows rel engine := by
  unfold Engine.authorNodeOnce
  refine rule.after (rule.cleared engine) ?_
  simp only
  split
  · exact rule.refl _
  · have hrefresh := rule.refreshKeys engine.clearPending
    split
    next heq => exact hrefresh.error heq
    next refreshed fresh heq =>
      have hshared := rule.trans (hrefresh.ok heq)
        (rule.shareJustInTime rule.authorKeys fresh content)
      have hauthor := fun useEpoch => rule.authorWithRotation
        (fresh.shareJustInTime store conversationId content nowMs).2 content metadata useEpoch
        hcontent
      split
      next heq => exact rule.next (rule.lost hshared) ((hauthor _).error heq)
      next heq => exact rule.trans hshared ((hauthor _).ok heq)

section Anchors

variable (hauthored : ∀ content, authored content)
include hauthored

variable (engine : Engine)

theorem createSnapshot :
    (engine.createSnapshot store conversationId nowMs).Follows rel engine := by
  unfold Engine.createSnapshot
  split
  · exact rule.refl engine
  · exact rule.authorNodeOnce engine _ _ (hauthored _)

theorem authorSoftAnchor :
    (engine.authorSoftAnchor store conversationId nowMs).Follows rel engine := by
  unfold Engine.authorSoftAnchor
  split
  · exact rule.refl engine
  · exact rule.refl engine
  · exact rule.authorNodeOnce engine _ _ (hauthored _)

omit hauthored in
theorem softAnchorDue :
    rel engine [] (engine.softAnchorDue store conversationId).2 := by
  unfold Engine.softAnchorDue
  split
  · exact rule.refl engine
  · simp only
    split
    · exact rule.refl engine
    · exact rule.drawn (engine.drawn_withRng _)

theorem autoAnchor :
    rel engine (engine.autoAnchor store conversationId nowMs).1
      (engine.autoAnchor store conversationId nowMs).2 := by
  have hsnapshot := rule.createSnapshot hauthored engine
  have hdue := rule.softAnchorDue engine
  unfold Engine.autoAnchor
  simp only
  split
  · split
    next heq => exact hsnapshot.ok heq
    next heq => exact hsnapshot.error heq
  · split
    next heq =>
      rw [heq] at hdue
      exact hdue
    next due heq =>
      rw [heq] at hdue
      have hanchor := rule.authorSoftAnchor hauthored due
      split
      next heq => exact rule.next hdue (hanchor.ok heq)
      next heq => exact rule.next hdue (hanchor.error heq)

theorem authorNode (content : Content) (metadata : Bytes) :
    (engine.authorNode store conversationId content metadata nowMs).Follows rel engine := by
  have honce := rule.authorNodeOnce engine content metadata (hauthored content)
  unfold Engine.authorNode
  split
  next heq => exact honce.error heq
  next heq =>
    split
    · exact honce.ok heq
    · exact rule.trans (honce.ok heq) (rule.autoAnchor hauthored _)

end Anchors

end AuthoringRule

end MerkleTox.Core
