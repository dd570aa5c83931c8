import MerkleTox.Fs.Commands

/-! # Stores that answer alike

When two stores give the same answers, and how this follows from an agreement of their
conversations.
-/

namespace MerkleTox.Fs

open Library Proto MerkleTox.Core

variable {nodeHash : NodeHash} {α : Type}
variable [IndexSearch] [Primitives]

/-- The reads of nodes give the same answers; answers without an order of their own are
the same up to order. -/
structure SameNodeAnswers (before after : FsStore) : Prop where
  getNode : ∀ nodeHash, after.getNode nodeHash = before.getNode nodeHash
  hasNode : ∀ nodeHash, after.hasNode nodeHash = before.hasNode nodeHash
  isVerified : ∀ nodeHash, after.isVerified nodeHash = before.isVerified nodeHash
  getRank : ∀ nodeHash, after.getRank nodeHash = before.getRank nodeHash
  getNodeType : ∀ nodeHash, after.getNodeType nodeHash = before.getNodeType nodeHash
  getAdminDistance : ∀ nodeHash,
    after.getAdminDistance nodeHash = before.getAdminDistance nodeHash
  hasChildren : ∀ nodeHash, after.hasChildren nodeHash = before.hasChildren nodeHash
  getSpeculativeNodes : ∀ conversationId,
    (after.getSpeculativeNodes conversationId).Perm (before.getSpeculativeNodes conversationId)
  getNodeCounts : ∀ conversationId,
    after.getNodeCounts conversationId = before.getNodeCounts conversationId
  getVerifiedNodesByType : ∀ conversationId nodeType,
    after.getVerifiedNodesByType conversationId nodeType =
      before.getVerifiedNodesByType conversationId nodeType
  getNodeHashesInRange : ∀ conversationId range,
    (after.getNodeHashesInRange conversationId range).Perm
      (before.getNodeHashesInRange conversationId range)
  getLastSequenceNumber : ∀ conversationId senderPk,
    after.getLastSequenceNumber conversationId senderPk =
      before.getLastSequenceNumber conversationId senderPk
  getRatchetKey : ∀ conversationId nodeHash,
    after.getRatchetKey conversationId nodeHash = before.getRatchetKey conversationId nodeHash

/-- Two states of a conversation read alike, where its `owned` hashes are looked up. -/
structure ConversationContext.Agrees (owned : NodeHash → Prop)
    (before after : ConversationContext) : Prop where
  getNode : ∀ {nodeHash}, owned nodeHash → after.getNode nodeHash = before.getNode nodeHash
  isVerified : ∀ {nodeHash}, owned nodeHash →
    after.isVerified nodeHash = before.isVerified nodeHash
  getRank : ∀ {nodeHash}, owned nodeHash → after.getRank nodeHash = before.getRank nodeHash
  getNodeType : ∀ {nodeHash}, owned nodeHash →
    after.getNodeType nodeHash = before.getNodeType nodeHash
  getAdminDistance : ∀ {nodeHash}, owned nodeHash →
    after.getAdminDistance nodeHash = before.getAdminDistance nodeHash
  hasChildren : ∀ {nodeHash}, owned nodeHash →
    after.hasChildren nodeHash = before.hasChildren nodeHash
  speculative : after.speculativeHashes.Perm before.speculativeHashes
  counts : after.getNodeCounts = before.getNodeCounts
  verified : ∀ nodeType, (after.verifiedHashes nodeType).Perm (before.verifiedHashes nodeType)
  inRange : ∀ range, (after.hashesInRange range).Perm (before.hashesInRange range)
  sequences : ∀ senderPk,
    after.getLastSequenceNumber senderPk = before.getLastSequenceNumber senderPk
  ratchets : ∀ nodeHash, after.getRatchetKey nodeHash = before.getRatchetKey nodeHash

/-- Two states of conversations look alike to the reads of one hash. -/
structure ConversationContext.LooksAlike (nodeHash : NodeHash)
    (before after : ConversationContext) : Prop where
  getNode : after.getNode nodeHash = before.getNode nodeHash
  isVerified : after.isVerified nodeHash = before.isVerified nodeHash
  getRank : after.getRank nodeHash = before.getRank nodeHash
  getNodeType : after.getNodeType nodeHash = before.getNodeType nodeHash
  getAdminDistance : after.getAdminDistance nodeHash = before.getAdminDistance nodeHash
  hasChildren : after.hasChildren nodeHash = before.hasChildren nodeHash

theorem ConversationContext.Agrees.refl (owned : NodeHash → Prop)
    (context : ConversationContext) : context.Agrees owned context where
  getNode _ := rfl
  isVerified _ := rfl
  getRank _ := rfl
  getNodeType _ := rfl
  getAdminDistance _ := rfl
  hasChildren _ := rfl
  speculative := .refl _
  counts := rfl
  verified _ := .refl _
  inRange _ := .refl _
  sequences _ := rfl
  ratchets _ := rfl

theorem SameNodeAnswers.trans {first second third : FsStore}
    (hfirst : SameNodeAnswers first second) (hsecond : SameNodeAnswers second third) :
    SameNodeAnswers first third where
  getNode nodeHash := (hsecond.getNode nodeHash).trans (hfirst.getNode nodeHash)
  hasNode nodeHash := (hsecond.hasNode nodeHash).trans (hfirst.hasNode nodeHash)
  isVerified nodeHash := (hsecond.isVerified nodeHash).trans (hfirst.isVerified nodeHash)
  getRank nodeHash := (hsecond.getRank nodeHash).trans (hfirst.getRank nodeHash)
  getNodeType nodeHash := (hsecond.getNodeType nodeHash).trans (hfirst.getNodeType nodeHash)
  getAdminDistance nodeHash :=
    (hsecond.getAdminDistance nodeHash).trans (hfirst.getAdminDistance nodeHash)
  hasChildren nodeHash := (hsecond.hasChildren nodeHash).trans (hfirst.hasChildren nodeHash)
  getSpeculativeNodes conversationId := (hsecond.getSpeculativeNodes conversationId).trans
    (hfirst.getSpeculativeNodes conversationId)
  getNodeCounts conversationId :=
    (hsecond.getNodeCounts conversationId).trans (hfirst.getNodeCounts conversationId)
  getVerifiedNodesByType conversationId nodeType :=
    (hsecond.getVerifiedNodesByType conversationId nodeType).trans
      (hfirst.getVerifiedNodesByType conversationId nodeType)
  getNodeHashesInRange conversationId range :=
    (hsecond.getNodeHashesInRange conversationId range).trans
      (hfirst.getNodeHashesInRange conversationId range)
  getLastSequenceNumber conversationId senderPk :=
    (hsecond.getLastSequenceNumber conversationId senderPk).trans
      (hfirst.getLastSequenceNumber conversationId senderPk)
  getRatchetKey conversationId nodeHash :=
    (hsecond.getRatchetKey conversationId nodeHash).trans
      (hfirst.getRatchetKey conversationId nodeHash)

theorem SameNodeAnswers.symm {before after : FsStore} (h : SameNodeAnswers before after) :
    SameNodeAnswers after before where
  getNode nodeHash := (h.getNode nodeHash).symm
  hasNode nodeHash := (h.hasNode nodeHash).symm
  isVerified nodeHash := (h.isVerified nodeHash).symm
  getRank nodeHash := (h.getRank nodeHash).symm
  getNodeType nodeHash := (h.getNodeType nodeHash).symm
  getAdminDistance nodeHash := (h.getAdminDistance nodeHash).symm
  hasChildren nodeHash := (h.hasChildren nodeHash).symm
  getSpeculativeNodes conversationId := (h.getSpeculativeNodes conversationId).symm
  getNodeCounts conversationId := (h.getNodeCounts conversationId).symm
  getVerifiedNodesByType conversationId nodeType :=
    (h.getVerifiedNodesByType conversationId nodeType).symm
  getNodeHashesInRange conversationId range :=
    (h.getNodeHashesInRange conversationId range).symm
  getLastSequenceNumber conversationId senderPk :=
    (h.getLastSequenceNumber conversationId senderPk).symm
  getRatchetKey conversationId nodeHash := (h.getRatchetKey conversationId nodeHash).symm

namespace FsStore

/-- A conversation as the reads see it: one that was never opened reads as a fresh one. -/
def view (store : FsStore) (conversationId : ConversationId) : ConversationContext :=
  (store.context conversationId).getD (.unreplayed (.new 0) .initial [])

variable {store before after : FsStore}

section Views

omit [IndexSearch] [Primitives]

theorem getD_view {fallback : α} {f : ConversationContext → α}
    (hfresh : f (.unreplayed (.new 0) .initial []) = fallback) (conversationId : ConversationId) :
    ((store.context conversationId).map f).getD fallback = f (store.view conversationId) := by
  rw [view]
  cases store.context conversationId with
  | none => exact hfresh.symm
  | some context => rfl

theorem bind_view {f : ConversationContext → Option α}
    (hfresh : f (.unreplayed (.new 0) .initial []) = none) (nodeHash : NodeHash) :
    (store.locate nodeHash).bind f =
      (store.nodeToConv.get nodeHash).bind fun conversationId => f (store.view conversationId) := by
  rw [locate]
  cases store.nodeToConv.get nodeHash with
  | none => rfl
  | some conversationId =>
      rw [Option.bind_some, Option.bind_some, view]
      cases store.context conversationId with
      | none => exact hfresh.symm
      | some context => rfl

theorem any_view {f : ConversationContext → Bool}
    (hfresh : f (.unreplayed (.new 0) .initial []) = false) (nodeHash : NodeHash) :
    (store.locate nodeHash).any f =
      (store.nodeToConv.get nodeHash).any fun conversationId => f (store.view conversationId) := by
  rw [locate]
  cases store.nodeToConv.get nodeHash with
  | none => rfl
  | some conversationId =>
      rw [Option.bind_some, Option.any_some, view]
      cases store.context conversationId with
      | none => exact hfresh.symm
      | some context => rfl

section

variable (conversationId : ConversationId)

theorem getNodeCounts_view :
    store.getNodeCounts conversationId = (store.view conversationId).getNodeCounts :=
  getD_view rfl conversationId

theorem getNodeHashesInRange_view (range : SyncRange) :
    store.getNodeHashesInRange conversationId range =
      (store.view conversationId).hashesInRange range :=
  getD_view rfl conversationId

theorem getLastSequenceNumber_view (senderPk : PhysicalDevicePk) :
    store.getLastSequenceNumber conversationId senderPk =
      (store.view conversationId).getLastSequenceNumber senderPk :=
  getD_view rfl conversationId

theorem getRatchetKey_view (nodeHash : NodeHash) :
    store.getRatchetKey conversationId nodeHash =
      (store.view conversationId).getRatchetKey nodeHash := by
  rw [getRatchetKey, view]
  cases store.context conversationId <;> rfl

end

section

variable {conversationId : ConversationId} {context : ConversationContext} (hcontext : store.context
  conversationId = some context)
include hcontext

theorem view_eq :
    store.view conversationId = context := by
  rw [view, hcontext]
  rfl

theorem view_update (f : ConversationContext → ConversationContext) (other : ConversationId) :
    (store.update conversationId f).view other =
      if other = conversationId then f context else store.view other := by
  rw [view, context_update]
  split
  next heq =>
    rw [heq, hcontext]
    rfl
  next => rfl

end

end Views

variable (conversationId : ConversationId)

theorem context_ensureConversation :
    ∃ context, (store.ensureConversation conversationId).context conversationId =
      some context := by
  rw [ensureConversation_eq]
  split
  next hopen =>
    rw [AssocMap.contains_eq] at hopen
    exact Option.isSome_iff_exists.mp hopen
  next => exact ⟨_, AssocMap.get_insert_self _ _ _⟩

theorem nodeToConv_ensureConversation :
    (store.ensureConversation conversationId).nodeToConv = store.nodeToConv := by
  rw [ensureConversation_eq]
  split <;> rfl

/-- Opening a conversation changes at most the generation of an empty journal. -/
theorem view_ensureConversation (conversationId other : ConversationId) :
    (store.ensureConversation conversationId).view other = store.view other ∨
      ∃ now, store.view other = .unreplayed (.new 0) .initial [] ∧
        (store.ensureConversation conversationId).view other =
          .unreplayed (.new now) .initial [] := by
  rw [ensureConversation_eq]
  split
  next => exact .inl rfl
  next habsent =>
    by_cases heq : other = conversationId
    · refine .inr ⟨store.now, ?_, ?_⟩
      · rw [AssocMap.contains_eq, Bool.not_eq_true, Option.isSome_eq_false_iff,
          Option.isNone_iff_eq_none] at habsent
        rw [view, context, heq, habsent]
        rfl
      · rw [view, context, heq, AssocMap.get_insert_self]
        rfl
    · refine .inl ?_
      rw [view, context, AssocMap.get_insert_of_ne _ _ heq]
      rfl

theorem getSpeculativeNodes_view :
    store.getSpeculativeNodes conversationId =
      (store.view conversationId).speculativeHashes.filterMap store.getNode := by
  rw [getSpeculativeNodes, view]
  cases store.context conversationId <;> rfl

theorem getVerifiedNodesByType_view (nodeType : NodeType) :
    store.getVerifiedNodesByType conversationId nodeType =
      (((store.view conversationId).verifiedHashes nodeType).filterMap
        store.getNode).insertionSort fun left right => store.presentedBefore left right := by
  rw [getVerifiedNodesByType, view]
  cases store.context conversationId <;> rfl

/-- A node is only ever returned under its own hash. -/
theorem hash_of_getNode {node : MerkleNode} (hget : store.getNode nodeHash = some node) :
    hash node = nodeHash := by
  obtain ⟨context, -, hnode⟩ := Option.bind_eq_some_iff.mp hget
  rw [ConversationContext.getNode] at hnode
  split at hnode
  · exact of_decide_eq_true (Option.filter_eq_some_iff.mp hnode).2
  · obtain ⟨_, _, hfilter⟩ := List.exists_of_findSome?_eq_some hnode
    exact of_decide_eq_true (Option.filter_eq_some_iff.mp hfilter).2

/-! ## The order of presentation -/

instance presentedBefore_total (store : FsStore) :
    Std.Total fun left right => store.presentedBefore left right = true where
  total left right := by
    simp only [presentedBefore, Bool.or_eq_true, Bool.and_eq_true, decide_eq_true_eq,
      BitVec.le_def]
    omega

instance presentedBefore_trans (store : FsStore) :
    IsTrans MerkleNode fun left right => store.presentedBefore left right = true where
  trans first second third := by
    simp only [presentedBefore, Bool.or_eq_true, Bool.and_eq_true, decide_eq_true_eq,
      BitVec.le_def]
    omega

theorem hash_eq_of_presentedBefore {left right : MerkleNode}
    (hleft : store.presentedBefore left right = true)
    (hright : store.presentedBefore right left = true) : hash left = hash right := by
  simp only [presentedBefore, Bool.or_eq_true, Bool.and_eq_true, decide_eq_true_eq,
    BitVec.le_def] at hleft hright
  have hbytes : (hash left).bytes.toNat = (hash right).bytes.toNat := by omega
  cases hl : hash left
  cases hr : hash right
  rw [hl, hr] at hbytes
  exact congrArg NodeHash.mk (BitVec.eq_of_toNat_eq hbytes)

/-- The nodes of permuted hashes are presented in one order. -/
theorem presented_eq_of_perm {hashes hashes' : List NodeHash} (hperm : hashes'.Perm hashes) :
    (hashes'.filterMap store.getNode).insertionSort
        (fun left right => store.presentedBefore left right) =
      (hashes.filterMap store.getNode).insertionSort
        fun left right => store.presentedBefore left right := by
  have hsorted : ∀ nodes : List MerkleNode,
      (nodes.insertionSort fun left right => store.presentedBefore left right).Pairwise
        fun left right => store.presentedBefore left right := fun nodes =>
    List.pairwise_insertionSort (fun left right => store.presentedBefore left right = true) nodes
  refine List.Perm.eq_of_pairwise ?_ (hsorted _) (hsorted _) ?_
  · intro left right hleft hright hle hge
    rw [List.mem_insertionSort, List.mem_filterMap] at hleft hright
    obtain ⟨_, -, hleft⟩ := hleft
    obtain ⟨_, -, hright⟩ := hright
    rw [← hash_of_getNode hleft] at hleft
    rw [← hash_of_getNode hright, ← hash_eq_of_presentedBefore hle hge, hleft] at hright
    exact Option.some.inj hright
  · refine (List.perm_insertionSort _ _).trans ?_
    exact (hperm.filterMap _).trans (List.perm_insertionSort _ _).symm

/-- Stores answer alike when the conversations that they name for each hash look alike and
their conversations agree. -/
theorem sameNodeAnswers_of_named
    (hnamed : ∀ nodeHash,
      (before.nodeToConv.get nodeHash = none ∧ after.nodeToConv.get nodeHash = none) ∨
      ∃ named named', before.nodeToConv.get nodeHash = some named ∧
        after.nodeToConv.get nodeHash = some named' ∧
        (before.view named).LooksAlike nodeHash (after.view named'))
    (hagrees : ∀ conversationId,
      (before.view conversationId).Agrees (fun _ => False) (after.view conversationId)) :
    SameNodeAnswers before after := by
  -- Queries through the index read the view of the conversation that the index names; a hash
  -- without one reads a fresh context on either side.
  have hbind : ∀ {α : Type} {f : NodeHash → ConversationContext → Option α},
      (∀ nodeHash, f nodeHash (.unreplayed (.new 0) .initial []) = none) →
      (∀ {nodeHash left right}, left.LooksAlike nodeHash right →
        f nodeHash right = f nodeHash left) →
      ∀ nodeHash, (after.locate nodeHash).bind (f nodeHash) =
        (before.locate nodeHash).bind (f nodeHash) := by
    intro α f hfresh hsame nodeHash
    rw [bind_view (hfresh nodeHash), bind_view (hfresh nodeHash)]
    obtain ⟨hbefore, hafter⟩ | ⟨_, _, hbefore, hafter, halike⟩ := hnamed nodeHash
    · rw [hbefore, hafter]
      rfl
    · rw [hbefore, hafter]
      exact hsame halike
  have hany : ∀ {f : NodeHash → ConversationContext → Bool},
      (∀ nodeHash, f nodeHash (.unreplayed (.new 0) .initial []) = false) →
      (∀ {nodeHash left right}, left.LooksAlike nodeHash right →
        f nodeHash right = f nodeHash left) →
      ∀ nodeHash, (after.locate nodeHash).any (f nodeHash) =
        (before.locate nodeHash).any (f nodeHash) := by
    intro f hfresh hsame nodeHash
    rw [any_view (hfresh nodeHash), any_view (hfresh nodeHash)]
    obtain ⟨hbefore, hafter⟩ | ⟨_, _, hbefore, hafter, halike⟩ := hnamed nodeHash
    · rw [hbefore, hafter]
      rfl
    · rw [hbefore, hafter]
      exact hsame halike
  have hgetNode : ∀ nodeHash, after.getNode nodeHash = before.getNode nodeHash :=
    hbind (fun _ => rfl) fun halike => halike.getNode
  have hindexed : ∀ nodeHash, (after.nodeToConv.get nodeHash).isSome =
      (before.nodeToConv.get nodeHash).isSome := by
    intro nodeHash
    obtain ⟨hbefore, hafter⟩ | ⟨_, _, hbefore, hafter, -⟩ := hnamed nodeHash
    · rw [hbefore, hafter]
    · rw [hbefore, hafter]
      rfl
  have hlookup : after.getNode = before.getNode := funext hgetNode
  -- The order of presentation depends on the nodes and on the number of indexed hashes.
  have hpresented : after.presentedBefore = before.presentedBefore := by
    funext left right
    rw [presentedBefore, presentedBefore, hlookup, AssocMap.size_eq_of_isSome hindexed]
  exact
    { getNode := hgetNode
      hasNode := fun nodeHash => by
        rw [hasNode, hasNode, AssocMap.contains_eq, AssocMap.contains_eq, hindexed]
      isVerified := hany (fun _ => rfl) fun halike => halike.isVerified
      getRank := hbind (fun _ => rfl) fun halike => halike.getRank
      getNodeType := hbind (fun _ => rfl) fun halike => halike.getNodeType
      getAdminDistance := hbind (fun _ => rfl) fun halike => halike.getAdminDistance
      hasChildren := hany (fun _ => rfl) fun halike => halike.hasChildren
      getSpeculativeNodes := fun conversationId => by
        rw [getSpeculativeNodes_view, getSpeculativeNodes_view, hlookup]
        exact (hagrees conversationId).speculative.filterMap _
      getNodeCounts := fun conversationId => by
        rw [getNodeCounts_view, getNodeCounts_view]
        exact (hagrees conversationId).counts
      getVerifiedNodesByType := fun conversationId nodeType => by
        rw [getVerifiedNodesByType_view, getVerifiedNodesByType_view, hpresented, hlookup]
        exact presented_eq_of_perm ((hagrees conversationId).verified nodeType)
      getNodeHashesInRange := fun conversationId range => by
        rw [getNodeHashesInRange_view, getNodeHashesInRange_view]
        exact (hagrees conversationId).inRange range
      getLastSequenceNumber := fun conversationId senderPk => by
        rw [getLastSequenceNumber_view, getLastSequenceNumber_view]
        exact (hagrees conversationId).sequences senderPk
      getRatchetKey := fun conversationId nodeHash => by
        rw [getRatchetKey_view, getRatchetKey_view]
        exact (hagrees conversationId).ratchets nodeHash }

/-- A read that no fresh conversation tells apart is the same once a conversation is open. -/
theorem read_ensureConversation (read : ConversationContext → α)
    (hfresh : ∀ now, read (.unreplayed (.new now) .initial []) =
      read (.unreplayed (.new 0) .initial [])) (conversationId other : ConversationId) :
    read ((store.ensureConversation conversationId).view other) = read (store.view other) := by
  obtain heq | ⟨now, hbefore, hafter⟩ := store.view_ensureConversation conversationId other
  · rw [heq]
  · rw [hbefore, hafter, hfresh]

omit [IndexSearch] [Primitives] in
/-- An update that a read does not see. -/
theorem read_update (read : ConversationContext → α) {f : ConversationContext → ConversationContext}
    (hread : ∀ context, read (f context) = read context) (conversationId other : ConversationId) :
    read ((store.update conversationId f).view other) = read (store.view other) := by
  rw [view, view, context_update]
  split
  next =>
    cases store.context other with
    | none => rfl
    | some context => exact hread context
  next => rfl

end FsStore

end MerkleTox.Fs
