import MerkleTox.Core.AuthoringRules
import MerkleTox.Core.Ratchet
import MerkleTox.Core.World

/-! # How the engine evolves

What any operation of the engine can do to the identity tables, to the established
conversations and to the vouchers, whatever else it does. `Evolves` is a preorder,
and every function of the engine evolves it; the invariants of runs rest on it and
never unfold the functions themselves.

The vouchers depend on who vouches: `Evolves voucher` allows the nodes that satisfy
`voucher` to vouch for their parents.
-/

namespace MerkleTox.Core

open Library Proto Relation

variable {manager : IdentityManager} {f : Established → Established}

/-- A change of the identity manager, a query included: it may cache a path. -/
inductive IdentityStep [Primitives] : IdentityManager → IdentityManager → Prop
  | addMember (manager : IdentityManager) (conversationId : ConversationId)
      (logicalPk : LogicalIdentityPk) (role : Nat) (joinedAt : Int) :
      IdentityStep manager (manager.addMember conversationId logicalPk role joinedAt)
  | dropMember (manager : IdentityManager) (conversationId : ConversationId)
      (logicalPk : LogicalIdentityPk) :
      IdentityStep manager (manager.dropMember conversationId logicalPk)
  | authorize (manager : IdentityManager) (ctx : CausalContext)
      (conversationId : ConversationId) (logicalPk : LogicalIdentityPk)
      (cert : DelegationCertificate) (nowMs : Int) (rank : Nat) (authHash : NodeHash) :
      IdentityStep manager
        (manager.authorizeDevice ctx conversationId logicalPk cert nowMs rank authHash).2
  | revoke (manager : IdentityManager) (conversationId : ConversationId)
      (revokerPk : PhysicalDevicePk) (revokerLogicalPk : LogicalIdentityPk)
      (targetDevicePk : PhysicalDevicePk) (rank : Nat) (nowMs : Int)
      (revocationHash : NodeHash) :
      IdentityStep manager (manager.revokeDevice conversationId revokerPk revokerLogicalPk
        targetDevicePk rank nowMs revocationHash)
  | query (manager : IdentityManager) (ctx : CausalContext) (conversationId : ConversationId)
      (devicePk : PhysicalDevicePk) (logicalPk : LogicalIdentityPk) (nowMs : Int) (rank : Nat) :
      IdentityStep manager
        (manager.isAuthorized ctx conversationId devicePk logicalPk nowMs rank).2

abbrev IdentityRun [Primitives] (before after : IdentityManager) : Prop :=
  ReflTransGen IdentityStep before after

/-- The established state of a conversation, from before there is one: it begins
without ratchets and history, and then its ratchets step. -/
inductive EstablishedStep [Primitives] : Option Established → Option Established → Prop
  | establish {em : Established} (hratchets : em.senderRatchets = .empty)
      (hhistory : em.history = []) : EstablishedStep none (some em)
  | step {em em' : Established} (hstep : RatchetStep em em') :
      EstablishedStep (some em) (some em')

abbrev EstablishedRun [Primitives] (before after : Option Established) : Prop :=
  ReflTransGen EstablishedStep before after

/-- An established conversation stays established, and its ratchets step. -/
theorem EstablishedRun.of_some [Primitives] {em : Established} {after : Option Established}
    (hrun : EstablishedRun (some em) after) : ∃ em', after = some em' ∧ RatchetRun em em' := by
  induction hrun with
  | refl => exact ⟨em, rfl, .refl⟩
  | tail _ hstep ih =>
      obtain ⟨middle, rfl, hmiddle⟩ := ih
      cases hstep with
      | step hstep => exact ⟨_, rfl, hmiddle.tail hstep⟩

/-- A property of fresh conversations that the ratchets keep holds of all of them. -/
theorem EstablishedRun.induction [Primitives] {inv : Established → Prop}
    (hfresh : ∀ em : Established, em.senderRatchets = .empty → em.history = [] → inv em)
    (hstep : ∀ em em', RatchetStep em em' → inv em → inv em')
    {before after : Option Established} (hrun : EstablishedRun before after)
    (hbefore : ∀ em, before = some em → inv em) : ∀ em, after = some em → inv em := by
  induction hrun with
  | refl => exact hbefore
  | tail _ hlast ih =>
      rintro em rfl
      cases hlast with
      | establish hratchets hhistory => exact hfresh em hratchets hhistory
      | step hlast => exact hstep _ _ hlast (ih _ rfl)

/-- A search for admin ancestors, in the cache of ancestors and the history of searches. -/
inductive SearchStep [Primitives] :
    LruCache NodeHash (List NodeHash) × List Search →
      LruCache NodeHash (List NodeHash) × List Search → Prop
  | search (engine : Engine) (overlay : Overlay) (node : MerkleNode) :
      SearchStep (engine.adminAncestorsCache, engine.searches)
        ((engine.searchAncestors overlay node).2.adminAncestorsCache,
          (engine.searchAncestors overlay node).2.searches)

abbrev SearchRun [Primitives]
    (before after : LruCache NodeHash (List NodeHash) × List Search) : Prop :=
  ReflTransGen SearchStep before after

/-- The device is recorded as a voucher for the node. -/
def Engine.VouchedBy (engine : Engine) (conversationId : ConversationId) (nodeHash : NodeHash)
    (devicePk : PhysicalDevicePk) : Prop :=
  ∃ conversation devices, engine.conversations.get conversationId = some conversation ∧
    conversation.vouchers.get nodeHash = some devices ∧ devices.contains devicePk

/-- A conversation whose state is established is an established one. -/
theorem Engine.get_of_establishedState {engine : Engine} {conversationId : ConversationId}
    {em : Established} (hstate : engine.establishedState conversationId = some em) :
    engine.conversations.get conversationId = some (.established em) := by
  obtain ⟨conversation, hget, hem⟩ := Option.bind_eq_some_iff.mp hstate
  cases conversation with
  | pending state => cases hem
  | established state =>
      cases hem
      exact hget

/-- The fields of an engine that few operations touch. -/
def Engine.selfView (engine : Engine) :=
  (engine.selfPk, engine.authored, engine.adminAncestorsCache, engine.searches)

/-- What every operation of the engine guarantees. -/
structure Evolves [Primitives] (voucher : ConversationId → MerkleNode → Prop)
    (before after : Engine) : Prop where
  selfPk : after.selfPk = before.selfPk
  authored : before.authored <:+ after.authored
  searched : SearchRun (before.adminAncestorsCache, before.searches)
    (after.adminAncestorsCache, after.searches)
  identity : IdentityRun before.identityManager after.identityManager
  established : ∀ conversationId, EstablishedRun (before.establishedState conversationId)
    (after.establishedState conversationId)
  vouchers : ∀ {conversationId nodeHash devicePk},
    after.VouchedBy conversationId nodeHash devicePk →
      before.VouchedBy conversationId nodeHash devicePk ∨
        ∃ node, voucher conversationId node ∧ nodeHash ∈ node.parents ∧
          node.senderPk = devicePk

namespace Evolves

variable [Primitives] {voucher weaker : ConversationId → MerkleNode → Prop}
variable {before middle after : Engine}

theorem refl (engine : Engine) : Evolves voucher engine engine :=
  ⟨rfl, List.suffix_rfl, .refl, .refl, fun _ => .refl, fun h => .inl h⟩

theorem trans (hfirst : Evolves voucher before middle) (hsecond : Evolves voucher middle after) :
    Evolves voucher before after where
  selfPk := hsecond.selfPk.trans hfirst.selfPk
  authored := hfirst.authored.trans hsecond.authored
  searched := hfirst.searched.trans hsecond.searched
  identity := hfirst.identity.trans hsecond.identity
  established conversationId :=
    (hfirst.established conversationId).trans (hsecond.established conversationId)
  vouchers h := (hsecond.vouchers h).elim hfirst.vouchers .inr

/-- More nodes may vouch. -/
theorem mono (hevolves : Evolves voucher before after)
    (himp : ∀ conversationId node, voucher conversationId node → weaker conversationId node) :
    Evolves weaker before after where
  selfPk := hevolves.selfPk
  authored := hevolves.authored
  searched := hevolves.searched
  identity := hevolves.identity
  established := hevolves.established
  vouchers h := (hevolves.vouchers h).imp_right
    fun ⟨node, hvoucher, hrest⟩ => ⟨node, himp _ _ hvoucher, hrest⟩

/-- The engine that an operation with a known result leaves. -/
theorem of_eq {Result : Type} {run : Result × Engine} {result : Result}
    (heq : run = (result, after)) (hevolves : Evolves voucher before run.2) :
    Evolves voucher before after := by
  rw [heq] at hevolves
  exact hevolves

/-- Operations on the rest of the engine. -/
theorem of_same (hidentity : after.identityManager = before.identityManager)
    (hconversations : after.conversations = before.conversations)
    (hself : after.selfView = before.selfView) : Evolves voucher before after where
  selfPk := congrArg Prod.fst hself
  authored := by
    have hsame : after.authored = before.authored := congrArg (fun view => view.2.1) hself
    exact hsame ▸ List.suffix_rfl
  searched := by
    have hsame : (after.adminAncestorsCache, after.searches) =
        (before.adminAncestorsCache, before.searches) := congrArg (fun view => view.2.2) hself
    rw [hsame]
  identity := by rw [hidentity]
  established conversationId := by
    simp only [Engine.establishedState, hconversations]
    exact .refl
  vouchers h := by
    obtain ⟨conversation, devices, hget, hrest⟩ := h
    exact .inl ⟨conversation, devices, hconversations ▸ hget, hrest⟩

variable {engine : Engine} {conversationId : ConversationId}

/-- Operations on the identity manager. -/
theorem withIdentity (hrun : IdentityRun engine.identityManager manager) :
    Evolves voucher engine (engine.withIdentity manager) where
  selfPk := rfl
  authored := List.suffix_rfl
  searched := .refl
  identity := hrun
  established _ := .refl
  vouchers h := .inl h

/-- Operations on one conversation that keep its vouchers among the old ones and those
who may vouch. -/
theorem setConversation {conversation : Conversation}
    (hestablished : EstablishedRun (engine.establishedState conversationId)
      conversation.established?)
    (hvouchers : ∀ {nodeHash devices devicePk}, conversation.vouchers.get nodeHash = some devices →
      devices.contains devicePk → engine.VouchedBy conversationId nodeHash devicePk ∨
        ∃ node, voucher conversationId node ∧ nodeHash ∈ node.parents ∧
          node.senderPk = devicePk) :
    Evolves voucher engine (engine.setConversation conversationId conversation) where
  selfPk := rfl
  authored := List.suffix_rfl
  searched := .refl
  identity := .refl
  established other := by
    simp only [Engine.establishedState, Engine.setConversation, AssocMap.get_insert]
    split
    next heq => exact heq ▸ hestablished
    next => exact .refl
  vouchers {other nodeHash devicePk} h := by
    obtain ⟨conversation', devices, hget, hdevices, hcontains⟩ := h
    simp only [Engine.setConversation, AssocMap.get_insert] at hget
    split at hget
    next heq =>
      cases hget
      exact heq ▸ hvouchers hdevices hcontains
    next => exact .inl ⟨conversation', devices, hget, hdevices, hcontains⟩

/-- Steps of the ratchets of an established conversation. -/
theorem setEstablished {em em' : Established}
    (hstate : engine.establishedState conversationId = some em) (hrun : RatchetRun em em')
    (hvouchers : em'.vouchers = em.vouchers) :
    Evolves voucher engine (engine.setConversation conversationId (.established em')) := by
  refine setConversation ?_ ?_
  · rw [hstate]
    exact hrun.lift some fun _ _ h => .step h
  · intro nodeHash devices devicePk hget hcontains
    have hold : em.vouchers.get nodeHash = some devices := hvouchers ▸ hget
    exact .inl ⟨.established em, devices, Engine.get_of_establishedState hstate, hold, hcontains⟩

/-- One such step, if the conversation is established at all. -/
theorem modifyEstablished (hstep : ∀ em, RatchetStep em (f em))
    (hvouchers : ∀ em, (f em).vouchers = em.vouchers) :
    Evolves voucher engine (engine.modifyEstablished conversationId f) := by
  unfold Engine.modifyEstablished
  split
  next em hstate => exact setEstablished hstate (.single (hstep em)) (hvouchers em)
  next => exact refl engine

/-- A change of an established conversation that leaves its ratchets alone. -/
theorem modifyRest (hratchets : ∀ em, (f em).senderRatchets = em.senderRatchets)
    (hskipped : ∀ em, (f em).skippedKeys = em.skippedKeys)
    (hhistory : ∀ em, (f em).history = em.history)
    (hvouchers : ∀ em, (f em).vouchers = em.vouchers) :
    Evolves voucher engine (engine.modifyEstablished conversationId f) :=
  modifyEstablished
    (fun em => .other (fun _ _ h => hratchets em ▸ h) (hskipped em) (hhistory em)) hvouchers

/-- A change of a conversation that only affects its vouchers and flags. -/
theorem modifyConversation {f : Conversation → Conversation}
    (hestablished : ∀ conversation, EstablishedRun conversation.established?
      (f conversation).established?) (hvouchers : ∀ {conversation nodeHash devices devicePk},
      (f conversation).vouchers.get nodeHash = some devices → devices.contains devicePk →
        (∃ old, conversation.vouchers.get nodeHash = some old ∧ old.contains devicePk) ∨
        ∃ node, voucher conversationId node ∧ nodeHash ∈ node.parents ∧
          node.senderPk = devicePk) :
    Evolves voucher engine (engine.modifyConversation conversationId f) where
  selfPk := rfl
  authored := List.suffix_rfl
  searched := .refl
  identity := .refl
  established other := by
    by_cases heq : other = conversationId
    · subst heq
      simp only [Engine.establishedState, Engine.modifyConversation, AssocMap.get_modify_self]
      cases engine.conversations.get other with
      | none => exact .refl
      | some conversation => exact hestablished conversation
    · simp only [Engine.establishedState, Engine.modifyConversation,
        AssocMap.get_modify_of_ne _ _ heq]
      exact .refl
  vouchers {other nodeHash devicePk} h := by
    obtain ⟨conversation', devices, hget, hdevices, hcontains⟩ := h
    by_cases heq : other = conversationId
    · subst heq
      simp only [Engine.modifyConversation, AssocMap.get_modify_self,
        Option.map_eq_some_iff] at hget
      obtain ⟨conversation, hold, rfl⟩ := hget
      refine (hvouchers hdevices hcontains).imp_left ?_
      rintro ⟨old, hget, hcontains⟩
      exact ⟨conversation, old, hold, hget, hcontains⟩
    · simp only [Engine.modifyConversation, AssocMap.get_modify_of_ne _ _ heq] at hget
      exact .inl ⟨conversation', devices, hget, hdevices, hcontains⟩

end Evolves

/-! ## Queries and re-validation -/

namespace Engine

/-- Erasing a device from all vouchers adds none. -/
theorem mapVouchers_contains {vouchers : Vouchers} {target devicePk : PhysicalDevicePk}
    {nodeHash : NodeHash} {devices : AssocMap PhysicalDevicePk Int}
    (hget : (vouchers.mapValues fun _ devices => devices.erase target).get nodeHash =
      some devices)
    (hcontains : devices.contains devicePk) :
    ∃ old, vouchers.get nodeHash = some old ∧ old.contains devicePk := by
  rw [AssocMap.get_mapValues, Option.map_eq_some_iff] at hget
  obtain ⟨old, hold, rfl⟩ := hget
  refine ⟨old, hold, ?_⟩
  rw [AssocMap.contains_eq, AssocMap.erase, AssocMap.get_retain] at hcontains
  rw [AssocMap.contains_eq]
  cases hdevice : old.get devicePk with
  | none => simp [hdevice] at hcontains
  | some value => rfl

variable [Primitives] {voucher : ConversationId → MerkleNode → Prop}
variable (engine : Engine) (store : InMemoryStore) (conversationId : ConversationId)
variable (node : MerkleNode) (nowMs : Int)

theorem searchAncestors_evolves (overlay : Overlay) :
    Evolves voucher engine (engine.searchAncestors overlay node).2 where
  selfPk := rfl
  authored := List.suffix_rfl
  searched := .single (.search engine overlay node)
  identity := .refl
  established _ := .refl
  vouchers h := .inl h

theorem causalContext_evolves : Evolves voucher engine (engine.causalContext store node).2 :=
  engine.searchAncestors_evolves node (engine.overlay store)

theorem authorization_evolves :
    Evolves voucher engine (engine.authorization store conversationId node).2.2 :=
  (engine.causalContext_evolves store node).trans (.withIdentity (.single (.query ..)))

theorem checkStructure_evolves : Evolves voucher engine (engine.checkStructure store node).2 := by
  unfold checkStructure
  simp only
  split <;> exact .of_same rfl rfl rfl

theorem verifyNode_evolves :
    Evolves voucher engine (engine.verifyNode store conversationId node nowMs).2 := by
  have hstructure : Evolves voucher engine _ := engine.checkStructure_evolves store node
  unfold verifyNode
  split
  next error checked heq =>
    rw [heq] at hstructure
    exact hstructure
  next valid checked heq =>
    rw [heq] at hstructure
    have hauthorized : Evolves voucher checked _ :=
      checked.authorization_evolves store conversationId node
    refine hstructure.trans (hauthorized.trans ?_)
    simp only
    split <;> exact .of_same rfl rfl rfl

theorem revalidateNodes_evolves (nodes : List MerkleNode) :
    Evolves voucher engine (engine.revalidateNodes store conversationId nowMs nodes).2 := by
  induction nodes generalizing engine with
  | nil => exact .refl engine
  | cons node rest ih =>
      have hverify : Evolves voucher engine _ :=
        engine.verifyNode_evolves store conversationId node nowMs
      unfold revalidateNodes
      split
      next checked heq =>
        rw [heq] at hverify
        exact hverify.trans (ih checked)
      next checked heq =>
        rw [heq] at hverify
        exact hverify.trans (ih checked)

theorem revalidateAllVerifiedNodes_evolves :
    Evolves voucher engine (engine.revalidateAllVerifiedNodes store conversationId nowMs).2 :=
  engine.revalidateNodes_evolves store conversationId nowMs _

/-! ## Side effects -/

variable {rotate : Rotation}

theorem tryRotate_evolves (postRevocation : Bool)
    (hrotate : ∀ engine flag, Evolves voucher engine (rotate engine flag).2) :
    Evolves voucher engine (engine.tryRotate rotate postRevocation).2 := by
  have hrun := hrotate engine postRevocation
  unfold tryRotate
  split
  next heq =>
    rw [heq] at hrun
    exact hrun
  next heq =>
    rw [heq] at hrun
    exact hrun

/-- New flags leave the state and the vouchers of a conversation alone. -/
theorem modifyFlags_evolves (flags : BitVec 64) :
    Evolves voucher engine (engine.modifyConversation conversationId
      fun conversation => conversation.setGenesisFlags flags) := by
  refine .modifyConversation ?_ ?_
  · intro conversation
    cases conversation with
    | pending state => exact .refl
    | established em => exact .single (.step (.other (fun _ _ h => h) rfl rfl))
  · intro conversation nodeHash devices devicePk hget hcontains
    refine .inl ⟨devices, ?_, hcontains⟩
    cases conversation <;> exact hget

theorem applyGenesis_evolves (creatorPk : LogicalIdentityPk) (createdAt : Int)
    (flags : BitVec 64) :
    Evolves voucher engine
      (engine.applyGenesis conversationId node creatorPk createdAt flags) := by
  unfold applyGenesis
  refine .trans ?_ (.modifyRest (fun _ => rfl) (fun _ => rfl) (fun _ => rfl) (fun _ => rfl))
  refine .trans ?_ (modifyFlags_evolves _ conversationId flags)
  exact .trans (.withIdentity (.single (.addMember engine.identityManager conversationId
    creatorPk 0 createdAt))) (.of_same rfl rfl rfl)

variable (ctx : CausalContext)

theorem applyAuthorize_evolves (cert : DelegationCertificate) :
    Evolves voucher engine (engine.applyAuthorize ctx conversationId node cert).2 := by
  unfold applyAuthorize
  refine .trans (.withIdentity (.single (.authorize engine.identityManager ctx conversationId
    node.authorPk cert node.networkTimestamp node.topologicalRank (hash node)))) ?_
  simp only
  split
  · exact .refl _
  · split <;> exact .of_same rfl rfl rfl

theorem applyRevoke_evolves (target : PhysicalDevicePk)
    (hrotate : ∀ engine flag, Evolves voucher engine (rotate engine flag).2) :
    Evolves voucher engine
      (engine.applyRevoke rotate ctx conversationId node target nowMs).2 := by
  have hdrop : ∀ engine : Engine, Evolves voucher engine (engine.modifyConversation
      conversationId fun conversation => conversation.setVouchers
        (conversation.vouchers.mapValues fun _ devices => devices.erase target)) := by
    intro engine
    refine .modifyConversation ?_ ?_
    · intro conversation
      cases conversation with
      | pending state => exact .refl
      | established em => exact .single (.step (.other (fun _ _ h => h) rfl rfl))
    · intro conversation nodeHash devices devicePk hget hcontains
      cases conversation <;> exact .inl (mapVouchers_contains hget hcontains)
  unfold applyRevoke
  refine .trans (.withIdentity (.single (.revoke engine.identityManager conversationId
    node.senderPk node.authorPk target node.topologicalRank node.networkTimestamp
    (hash node)))) ?_
  refine .trans (hdrop _) ?_
  simp only
  split
  · exact tryRotate_evolves _ true hrotate
  · exact .refl _

theorem removeMember_run (manager : IdentityManager) (revokerPk : PhysicalDevicePk)
    (revokerLogicalPk logicalPk : LogicalIdentityPk) (rank : Nat) (revocationHash : NodeHash) :
    IdentityRun manager (manager.removeMember conversationId revokerPk revokerLogicalPk logicalPk
      rank nowMs revocationHash) := by
  have hrevokes : ∀ (devices : List PhysicalDevicePk) (manager : IdentityManager),
      IdentityRun manager (devices.foldl (fun manager device => manager.revokeDevice
        conversationId revokerPk revokerLogicalPk device rank nowMs revocationHash) manager) := by
    intro devices
    induction devices with
    | nil => exact fun _ => .refl
    | cons device rest ih => exact fun manager => .head (.revoke ..) (ih _)
  exact .head (.dropMember ..) (hrevokes _ _)

theorem applyAnchorSnapshot_evolves (data : SnapshotData) :
    Evolves voucher engine (engine.applyAnchorSnapshot conversationId node data nowMs) := by
  have hmembers : ∀ (members : List MemberInfo) (manager : IdentityManager),
      IdentityRun manager (members.foldl (fun manager member => manager.addMember conversationId
        member.publicKey member.role member.joinedAt) manager) := by
    intro members
    induction members with
    | nil => exact fun _ => .refl
    | cons member rest ih => exact fun manager => .head (.addMember ..) (ih _)
  have hanchor : Evolves voucher engine (engine.setAnchor conversationId (hash node)) :=
    .of_same rfl rfl rfl
  unfold applyAnchorSnapshot
  refine hanchor.trans (.trans (.withIdentity (hmembers data.members _)) ?_)
  simp only
  split
  · exact .of_same rfl rfl rfl
  · exact .refl _

theorem applyHandshakePulse_evolves
    (hrotate : ∀ engine flag, Evolves voucher engine (rotate engine flag).2) :
    Evolves voucher engine
      (engine.applyHandshakePulse rotate ctx conversationId node nowMs).2 := by
  unfold applyHandshakePulse
  simp only
  split
  · refine .trans ?_ (tryRotate_evolves _ false hrotate)
    exact .of_same rfl rfl rfl
  · exact .of_same rfl rfl rfl

variable (em : Established)

/-- Forgetting a ratchet is a step. -/
theorem resetSender_step (senderPk : PhysicalDevicePk) :
    RatchetStep em (em.resetSender senderPk) := by
  refine .other ?_ rfl rfl
  intro other ratchet hget
  by_cases heq : other = senderPk
  · simp [Established.resetSender, heq] at hget
  · rwa [Established.resetSender, AssocMap.get_erase_of_ne _ heq] at hget

theorem applyDistribution_evolves (ephemeralSigningPk : EphemeralSigningPk) :
    Evolves voucher engine
      (engine.applyDistribution conversationId node ephemeralSigningPk) := by
  have hreset : ∀ engine : Engine, Evolves voucher engine (engine.modifyEstablished
      conversationId fun em =>
        if node.epoch = em.currentEpoch then em.resetSender node.senderPk else em) := by
    intro engine
    refine .modifyEstablished (fun em => ?_) (fun em => ?_)
    · split
      · exact resetSender_step em node.senderPk
      · exact .other (fun _ _ h => h) rfl rfl
    · split <;> rfl
  unfold applyDistribution
  refine .trans ?_ (hreset _)
  split <;> exact .of_same rfl rfl rfl

theorem applyAction_evolves
    (hrotate : ∀ engine flag, Evolves voucher engine (rotate engine flag).2) :
    Evolves voucher engine
      (engine.applyAction rotate ctx conversationId node nowMs).2 := by
  unfold applyAction
  simp only
  split
  · exact engine.applyGenesis_evolves conversationId node _ _ _
  · exact engine.applyAuthorize_evolves conversationId node ctx _
  · exact engine.applyRevoke_evolves conversationId node nowMs ctx _ hrotate
  · exact .withIdentity (.single (.addMember ..))
  · exact .withIdentity (removeMember_run ..)
  · exact .of_same rfl rfl rfl
  · exact .of_same rfl rfl rfl
  · exact engine.applyAnchorSnapshot_evolves conversationId node nowMs _
  · exact .of_same rfl rfl rfl
  · exact engine.applyHandshakePulse_evolves conversationId node nowMs ctx hrotate
  · exact engine.applyDistribution_evolves conversationId node _
  · exact .refl engine

/-- Looking a key up and consuming it are two steps of the ratchets. -/
theorem advanceEstablished_run :
    RatchetRun em (advanceEstablished em conversationId node nowMs).2 := by
  have hpeek := RatchetStep.peek em node.senderPk node.sequenceNumber nowMs
  unfold advanceEstablished
  split
  next peeked heq =>
    rw [show node.sequenceNumber.toNat = node.seq from rfl, heq] at hpeek
    exact .single hpeek
  next kMsg nextKey peeked heq =>
    rw [show node.sequenceNumber.toNat = node.seq from rfl, heq] at hpeek
    exact .tail (.single hpeek)
      (.commit peeked node.senderPk node.seq nextKey (hash node))

theorem peekKeys_vouchers (senderPk : PhysicalDevicePk) (seq : Nat) :
    (em.peekKeys senderPk seq nowMs).2.vouchers = em.vouchers := by
  obtain ⟨kept, heq⟩ := em.peekKeys_frame senderPk nowMs seq
  rw [heq]
  rfl

/-- Advancing a ratchet changes the ratchets and the skipped keys only. -/
theorem advanceEstablished_frame :
    ∃ kept ratchets history, (advanceEstablished em conversationId node nowMs).2 =
      { em with skippedKeys := kept, senderRatchets := ratchets, history := history } := by
  obtain ⟨kept, hpeek⟩ := em.peekKeys_frame node.senderPk nowMs node.seq
  unfold advanceEstablished
  split
  next peeked heq =>
    rw [heq] at hpeek
    exact ⟨_, _, _, hpeek⟩
  next kMsg nextKey peeked heq =>
    rw [heq] at hpeek
    obtain rfl := hpeek
    simp only [Established.commitNodeKey_frame]
    exact ⟨_, _, _, rfl⟩

theorem advanceRatchet_evolves :
    Evolves voucher engine (engine.advanceRatchet conversationId node nowMs).2 := by
  unfold advanceRatchet
  split
  next => exact .refl engine
  next em hstate =>
    split
    · exact .setEstablished hstate (.single (.track em node.senderPk node.seq)) rfl
    · obtain ⟨kept, ratchets, history, hframe⟩ :=
        advanceEstablished_frame conversationId node nowMs em
      exact .setEstablished hstate (advanceEstablished_run conversationId node nowMs em)
        (by rw [hframe])

theorem updateHeads_evolves :
    Evolves voucher engine (engine.updateHeads store conversationId node).2 := by
  unfold updateHeads
  simp only
  split <;> exact .of_same rfl rfl rfl

theorem applySideEffects_evolves
    (hrotate : ∀ engine flag, Evolves voucher engine (rotate engine flag).2) :
    Evolves voucher engine
      (engine.applySideEffects rotate store conversationId node nowMs).2 := by
  have hcontext : Evolves voucher engine _ := engine.causalContext_evolves store node
  unfold applySideEffects
  refine hcontext.trans ?_
  simp only
  have haction : Evolves voucher (engine.causalContext store node).2 _ :=
    applyAction_evolves _ conversationId node nowMs (engine.causalContext store node).1 hrotate
  split
  next heq =>
    rw [heq] at haction
    exact haction
  next heq =>
    rw [heq] at haction
    exact haction.trans ((advanceRatchet_evolves _ conversationId node nowMs).trans
      (updateHeads_evolves _ store conversationId node))

/-! ## Authoring -/

theorem clearPending_evolves : Evolves voucher engine engine.clearPending := .of_same rfl rfl rfl

theorem ensureSigningKey_evolves (epoch : Nat) :
    Evolves voucher engine (engine.ensureSigningKey epoch).2 := by
  unfold ensureSigningKey
  split
  · exact .refl engine
  · exact .of_same rfl rfl rfl

theorem countMessage_evolves (content : Content) :
    Evolves voucher engine (engine.countMessage conversationId content) := by
  unfold countMessage
  split
  · exact .refl engine
  · exact .modifyRest (fun _ => rfl) (fun _ => rfl) (fun _ => rfl) (fun _ => rfl)

theorem contentPackKeys_evolves :
    Evolves voucher engine (engine.contentPackKeys conversationId node nowMs).2 := by
  unfold contentPackKeys
  split
  next => exact .refl engine
  next em hstate =>
    split
    · split
      · exact .refl engine
      · exact .of_same rfl rfl rfl
    · have hpeek := RatchetStep.peek em node.senderPk node.sequenceNumber nowMs
      have hvouchers := peekKeys_vouchers nowMs em node.senderPk node.seq
      rw [show node.sequenceNumber.toNat = node.seq from rfl] at hpeek
      split
      next peeked heq =>
        rw [heq] at hpeek hvouchers
        exact .setEstablished hstate (.single hpeek) hvouchers
      next kMsg nextKey peeked heq =>
        rw [heq] at hpeek hvouchers
        exact (Evolves.setEstablished hstate (.single hpeek) hvouchers).trans (.of_same rfl rfl rfl)

theorem signNode_evolves (useEpoch : Option Nat) :
    Evolves voucher engine (engine.signNode conversationId node useEpoch nowMs).2 := by
  unfold signNode
  simp only
  split
  · split <;> exact .refl engine
  · split
    · exact engine.ensureSigningKey_evolves _
    · refine (engine.countMessage_evolves conversationId node.content).trans ?_
      exact (contentPackKeys_evolves _ conversationId node nowMs).trans
        (ensureSigningKey_evolves _ _)

theorem packLate_evolves :
    Evolves voucher engine (engine.packLate conversationId node nowMs).2 := by
  unfold packLate
  split
  · exact .refl engine
  · split
    · exact .refl engine
    · exact engine.contentPackKeys_evolves conversationId node nowMs

theorem noteAuthored_evolves :
    Evolves voucher engine (engine.noteAuthored conversationId node) :=
  ⟨rfl, List.suffix_cons _ _, .refl, .refl, fun _ => .refl, fun h => .inl h⟩

theorem putOwn_evolves_noted (wire : Option WireNode) :
    Evolves voucher (engine.noteAuthored conversationId node)
      (engine.putOwn conversationId node wire nowMs).2 := by
  unfold putOwn
  cases wire with
  | some wire => exact .of_same rfl rfl rfl
  | none =>
      refine (packLate_evolves _ conversationId node nowMs).trans ?_
      simp only
      split
      · exact .refl _
      · exact .of_same rfl rfl rfl

theorem putOwn_evolves (wire : Option WireNode) :
    Evolves voucher engine (engine.putOwn conversationId node wire nowMs).2 :=
  (engine.noteAuthored_evolves conversationId node).trans
    (engine.putOwn_evolves_noted conversationId node nowMs wire)

theorem authorNodeInternal_evolves (content : Content) (metadata : Bytes) (useEpoch : Option Nat)
    (hrotate : ∀ engine flag, Evolves voucher engine (rotate engine flag).2) :
    Evolves voucher engine (engine.authorNodeInternal rotate store conversationId content metadata
      useEpoch nowMs).2 := by
  have hsign : Evolves voucher engine _ := engine.signNode_evolves conversationId
    (engine.draftNode store conversationId content metadata useEpoch nowMs) nowMs useEpoch
  unfold authorNodeInternal
  simp only
  split
  next heq =>
    rw [heq] at hsign
    exact hsign
  next node wire signed heq =>
    rw [heq] at hsign
    refine hsign.trans ((signed.putOwn_evolves conversationId node nowMs wire).trans ?_)
    have hside : Evolves voucher (signed.putOwn conversationId node wire nowMs).2 _ :=
      applySideEffects_evolves _ store conversationId node nowMs hrotate
    split
    next heq =>
      rw [heq] at hside
      exact hside
    next heq =>
      rw [heq] at hside
      refine hside.trans ?_
      simp only
      split
      · exact revalidateAllVerifiedNodes_evolves _ store conversationId nowMs
      · exact .refl _

omit [Primitives] in
/-- Listing the active devices queries the authorization of one device after another. -/
theorem listActiveAuthorizedDevices_invariant (inv : IdentityManager → Prop) {ctx : CausalContext}
    {rank : Nat}
    (hquery : ∀ manager devicePk logicalPk, inv manager → inv
      (IdentityManager.isAuthorized manager ctx conversationId devicePk logicalPk nowMs rank).2)
    (hinv : inv manager) :
    inv (manager.listActiveAuthorizedDevices ctx conversationId nowMs rank).2 := by
  have hdevices : ∀ (logicalPk : LogicalIdentityPk) (devices found : List PhysicalDevicePk)
      (manager : IdentityManager), inv manager → inv (devices.foldl
        (fun (state : List PhysicalDevicePk × IdentityManager) devicePk =>
          (if (state.2.isAuthorized ctx conversationId devicePk logicalPk nowMs rank).1 then
              state.1 ++ [devicePk]
            else state.1,
            (state.2.isAuthorized ctx conversationId devicePk logicalPk nowMs rank).2))
        (found, manager)).2 := by
    intro logicalPk devices
    induction devices with
    | nil => exact fun _ _ hinv => hinv
    | cons device rest ih => exact fun found manager hinv => ih _ _ (hquery _ _ _ hinv)
  have hmembers : ∀ (candidates : List PhysicalDevicePk)
      (members : List (LogicalIdentityPk × Nat × Int)) (devices : List PhysicalDevicePk)
      (manager : IdentityManager), inv manager → inv (members.foldl
        (fun (state : List PhysicalDevicePk × IdentityManager) member =>
          let inner := candidates.foldl
            (fun (state : List PhysicalDevicePk × IdentityManager) devicePk =>
              (if (state.2.isAuthorized ctx conversationId devicePk member.1 nowMs rank).1 then
                  state.1 ++ [devicePk]
                else state.1,
                (state.2.isAuthorized ctx conversationId devicePk member.1 nowMs rank).2))
            (([] : List PhysicalDevicePk), state.2)
          (state.1 ++ if inner.1.isEmpty then [member.1.toPhysical] else inner.1, inner.2))
        (devices, manager)).2 := by
    intro candidates members
    induction members with
    | nil => exact fun _ _ hinv => hinv
    | cons member rest ih =>
        exact fun devices manager hinv => ih _ _ (hdevices member.1 candidates [] manager hinv)
  exact hmembers _ _ [] manager hinv

theorem listActiveAuthorizedDevices_run (manager : IdentityManager) (ctx : CausalContext)
    (rank : Nat) :
    IdentityRun manager
      (manager.listActiveAuthorizedDevices ctx conversationId nowMs rank).2 :=
  listActiveAuthorizedDevices_invariant conversationId nowMs
    (fun listed => IdentityRun manager listed) (fun _ _ _ hrun => hrun.tail (.query ..)) .refl

theorem installKey_evolves (kConv : KConv) :
    Evolves voucher engine (engine.installKey conversationId kConv nowMs).2.2 := by
  unfold installKey
  split
  next em hstate =>
    refine .setEstablished hstate (.single (.other ?_ rfl rfl)) rfl
    intro senderPk ratchet hget
    simp [Established.rotate] at hget
  next hnone =>
    refine .setConversation ?_ ?_
    · rw [hnone]
      exact .single (.establish rfl rfl)
    · intro nodeHash devices devicePk hget
      simp [Conversation.vouchers, Established.new, Pending.establish, Pending.new] at hget

/-- Authoring evolves the engine. -/
theorem evolves_rule : AuthoringRule store conversationId nowMs
    (fun before _ after => Evolves voucher before after) fun _ => True where
  refl := .refl
  trans := Evolves.trans
  lost h := h
  drawn := by
    rintro before after ⟨rng, keys, announcements, rfl⟩
    exact .of_same rfl rfl rfl
  rekeyed engine f hrekeys := by
    refine .modifyRest ?_ ?_ ?_ ?_ <;>
    · intro em
      obtain ⟨keys, count, time, sent, heq⟩ := hrekeys em
      rw [heq]
  listed engine ctx rank :=
    .withIdentity (listActiveAuthorizedDevices_run conversationId nowMs _ ctx rank)
  keys _ _ := trivial
  author engine _ _ _ _ hrotate := .of_engine
    (engine.authorNodeInternal_evolves store conversationId nowMs _ _ _
      fun engine flag => (hrotate engine flag).engine)
  cleared engine := engine.clearPending_evolves
  installed engine kConv := engine.installKey_evolves conversationId nowMs kConv
  noted engine _ _ := .refl engine
  wanted engine := .refl engine

theorem rotateConversationKey_evolves (postRevocation : Bool) :
    Evolves voucher engine
      (rotateConversationKey store conversationId nowMs engine postRevocation).2 :=
  ((evolves_rule store conversationId nowMs).rotateConversationKey engine postRevocation).engine

theorem senderRekey_evolves :
    Evolves voucher engine (engine.senderRekey store conversationId nowMs).2 :=
  have rule := evolves_rule store conversationId nowMs
  (rule.senderRekey rule.authorKeys engine).engine

theorem authorNode_evolves (content : Content) (metadata : Bytes) :
    Evolves voucher engine
      (engine.authorNode store conversationId content metadata nowMs).2 :=
  ((evolves_rule store conversationId nowMs).authorNode (fun _ => trivial) engine content
    metadata).engine

end Engine

end MerkleTox.Core
