import Mathlib.Data.List.Dedup
import MerkleTox.Fs.Consistency
import MerkleTox.Library.Run

/-! # Runs of the file-system store

The writes that a store takes, with compaction and reopening between them. Every run
leaves the memory and the files of each conversation in agreement.
-/

namespace MerkleTox.Fs

open Library Proto MerkleTox.Core

variable {f : ConversationContext → ConversationContext} {order ids : List ConversationId}
  {conversationId : ConversationId}

/-- `wait` lets the clock advance; `reopen` closes the store and opens its files again. -/
inductive Command
  | putNode (conversationId : ConversationId) (node : MerkleNode) (verified : Bool)
  | markVerified (conversationId : ConversationId) (nodeHash : NodeHash)
  | putWireNode (conversationId : ConversationId) (nodeHash : NodeHash) (wire : WireNode)
  | removeWireNode (conversationId : ConversationId) (nodeHash : NodeHash)
  | putRatchetKey (conversationId : ConversationId) (nodeHash : NodeHash) (chainKey : ChainKey)
      (epochId : Nat)
  | removeRatchetKey (conversationId : ConversationId) (nodeHash : NodeHash)
  | setHeads (conversationId : ConversationId) (heads : List NodeHash)
  | setAdminHeads (conversationId : ConversationId) (heads : List NodeHash)
  | putConversationKey (conversationId : ConversationId) (epoch : Nat) (kConv : KConv)
  | updateEpochMetadata (conversationId : ConversationId) (messageCount : Nat)
      (lastRotationTime : Int)
  | compact (conversationId : ConversationId)
  | reopen (order : List ConversationId)
  | wait (nanoseconds : Nat)

/-- The writes of nodes and of ratchet keys, promotions, compactions and waiting. -/
def Command.writesNodes : Command → Bool
  | .putNode .. | .markVerified .. | .putRatchetKey .. | .removeRatchetKey .. | .compact _
  | .wait _ => true
  | _ => false

namespace FsStore

variable [IndexSearch] [Primitives]

section Step

variable [WireFormat]

def step (store : FsStore) : Command → FsStore
  | .putNode conversationId node verified => store.putNode conversationId node verified
  | .markVerified conversationId nodeHash => store.markVerified conversationId nodeHash
  | .putWireNode conversationId nodeHash wire => store.putWireNode conversationId nodeHash wire
  | .removeWireNode conversationId nodeHash => store.removeWireNode conversationId nodeHash
  | .putRatchetKey conversationId nodeHash chainKey epochId =>
      store.putRatchetKey conversationId nodeHash chainKey epochId
  | .removeRatchetKey conversationId nodeHash =>
      store.removeRatchetKey conversationId nodeHash
  | .setHeads conversationId heads => store.setHeads conversationId heads
  | .setAdminHeads conversationId heads => store.setAdminHeads conversationId heads
  | .putConversationKey conversationId epoch kConv =>
      store.putConversationKey conversationId epoch kConv
  | .updateEpochMetadata conversationId messageCount lastRotationTime =>
      store.updateEpochMetadata conversationId messageCount lastRotationTime
  | .compact conversationId => store.compact conversationId
  | .reopen order => store.reopen order
  | .wait nanoseconds => { store with clock := store.clock + nanoseconds }

def run (store : FsStore) (commands : List Command) : FsStore := runFrom step store commands

end Step

/-- Every open conversation is well-formed. -/
def WellFormed (store : FsStore) : Prop :=
  ∀ conversationId context, store.context conversationId = some context →
    context.WellFormed store.clock

variable {store : FsStore}

theorem wellFormed_empty (clock : Nat) : (⟨.empty, .empty, clock⟩ : FsStore).WellFormed :=
  fun _ _ hget => nomatch hget

section Update

omit [IndexSearch] [Primitives]

theorem context_update (conversationId other : ConversationId)
    (f : ConversationContext → ConversationContext) :
    (store.update conversationId f).context other =
      if other = conversationId then (store.context other).map f else store.context other := by
  unfold context update
  split
  next heq => rw [heq, AssocMap.get_modify_self]
  next hne => exact store.conversations.get_modify_of_ne _ hne

end Update

/-- An update that keeps every well-formed context well-formed. -/
theorem WellFormed.update (h : store.WellFormed) (conversationId : ConversationId)
    (hkeeps : ∀ {context : ConversationContext}, context.WellFormed store.clock →
      (f context).WellFormed store.clock) :
    (store.update conversationId f).WellFormed := by
  intro other context hget
  rw [context_update] at hget
  split at hget
  · obtain ⟨before, hbefore, rfl⟩ := Option.map_eq_some_iff.mp hget
    exact hkeeps (h _ _ hbefore)
  · exact h _ _ hget

theorem ensureConversation_eq (conversationId : ConversationId) :
    store.ensureConversation conversationId =
      if store.conversations.contains conversationId then store
      else
        { store with
          conversations := store.conversations.insert conversationId
            (.unreplayed (.new store.now) .initial [])
          clock := store.now } := rfl

section

variable (h : store.WellFormed) (conversationId : ConversationId)
include h

theorem WellFormed.ensureConversation :
    (store.ensureConversation conversationId).WellFormed := by
  rw [ensureConversation_eq]
  split
  next => exact h
  next =>
    intro other context hget
    rw [FsStore.context, AssocMap.get_insert] at hget
    split at hget
    · obtain rfl := Option.some.inj hget
      exact ConversationContext.wellFormed_new _
    · exact (h _ _ hget).mono (Nat.le_succ _)

theorem WellFormed.saveState {change : ConvState → ConvState}
    (hpacks : ∀ state, (change state).activePacks = state.activePacks)
    (hjournal : ∀ state, (change state).activeJournalId = state.activeJournalId) :
    (store.saveState conversationId change).WellFormed :=
  (h.ensureConversation conversationId).update _ fun hcontext =>
    hcontext.saveState (hpacks _) (hjournal _)

theorem WellFormed.compactInternal :
    (store.compactInternal conversationId).WellFormed := by
  intro other context hget
  have hcontext : (store.update conversationId fun context =>
      context.compactInternal store.now).context other = some context := hget
  rw [context_update] at hcontext
  split at hcontext
  · obtain ⟨before, hbefore, rfl⟩ := Option.map_eq_some_iff.mp hcontext
    exact (h _ _ hbefore).compactInternal
  · exact (h _ _ hcontext).mono (Nat.le_succ _)

theorem WellFormed.recordNode (node : MerkleNode) (verified : Bool) :
    (store.recordNode conversationId node verified).WellFormed := by
  have hwritten := (h.ensureConversation conversationId).update conversationId
    fun hcontext => hcontext.recordNode node verified
  intro other context hget
  exact hwritten _ _ hget

theorem WellFormed.putNode (node : MerkleNode) (verified : Bool) :
    (store.putNode conversationId node verified).WellFormed := by
  have hrecorded := h.recordNode conversationId node verified
  unfold FsStore.putNode
  dsimp only
  split
  · exact hrecorded.compactInternal conversationId
  · exact hrecorded

end

omit [IndexSearch] [Primitives] in
/-- The directory has each conversation once. -/
theorem mem_directory :
    conversationId ∈ store.directory order ↔
      (store.context conversationId).isSome = true := by
  rw [directory, List.mem_append, List.mem_dedup, List.mem_filter, List.mem_filter,
    ← AssocMap.contains_iff_mem_keys, context, ← AssocMap.contains_eq]
  by_cases hmem : conversationId ∈ order
  · simp [hmem]
  · simp [hmem]

/-- What the conversations become once they are all opened again. -/
theorem context_foldl_discover {files : ConversationId → Option ConversationFiles}
    (hload : ∀ conversationId ∈ ids,
      ((files conversationId).bind ConversationContext.load).isSome = true) (opened : FsStore)
    (conversationId : ConversationId) :
    (ids.foldl (discover files) opened).context conversationId =
      if conversationId ∈ ids then (files conversationId).bind ConversationContext.load
      else opened.context conversationId := by
  induction ids generalizing opened with
  | nil => rfl
  | cons first rest ih =>
      rw [List.foldl_cons, ih fun other hmem => hload other (List.mem_cons_of_mem _ hmem)]
      obtain ⟨context, hcontext⟩ := Option.isSome_iff_exists.mp (hload first List.mem_cons_self)
      by_cases hrest : conversationId ∈ rest
      · rw [if_pos hrest, if_pos (List.mem_cons_of_mem _ hrest)]
      · rw [if_neg hrest]
        simp only [discover, hcontext, FsStore.context, AssocMap.get_insert]
        by_cases heq : conversationId = first
        · rw [if_pos heq, if_pos (heq ▸ List.mem_cons_self), heq, hcontext]
        · rw [if_neg heq, if_neg (List.not_mem_cons_of_ne_of_not_mem heq hrest)]

theorem clock_foldl_discover (files : ConversationId → Option ConversationFiles)
    (ids : List ConversationId) (opened : FsStore) :
    (ids.foldl (discover files) opened).clock = opened.clock := by
  induction ids generalizing opened with
  | nil => rfl
  | cons first rest ih =>
      rw [List.foldl_cons, ih]
      unfold discover
      split <;> rfl

theorem WellFormed.load (h : store.WellFormed) (conversationId : ConversationId) :
    (store.files conversationId).bind ConversationContext.load =
      (store.context conversationId).map ConversationContext.rebuilt := by
  rw [FsStore.files]
  cases hcontext : store.context conversationId with
  | none => rfl
  | some context => exact (h _ _ hcontext).load_eq

/-- Reopening rebuilds every conversation from its files. -/
theorem WellFormed.context_reopen (h : store.WellFormed) (order : List ConversationId)
    (conversationId : ConversationId) :
    (store.reopen order).context conversationId =
      (store.context conversationId).map ConversationContext.rebuilt := by
  rw [FsStore.reopen, context_foldl_discover, h.load]
  · split
    next => rfl
    next habsent =>
      rw [mem_directory, Bool.not_eq_true, Option.isSome_eq_false_iff,
        Option.isNone_iff_eq_none] at habsent
      rw [habsent]
      rfl
  · intro other hmem
    rw [h.load, Option.isSome_map]
    exact mem_directory.mp hmem

theorem WellFormed.reopen (h : store.WellFormed) (order : List ConversationId) :
    (store.reopen order).WellFormed := by
  intro conversationId context hcontext
  rw [h.context_reopen] at hcontext
  obtain ⟨before, hbefore, rfl⟩ := Option.map_eq_some_iff.mp hcontext
  rw [FsStore.reopen, clock_foldl_discover]
  exact (h _ _ hbefore).rebuilt

theorem WellFormed.step [WireFormat] (h : store.WellFormed) (command : Command) :
    (store.step command).WellFormed := by
  cases command with
  | putNode conversationId node verified => exact h.putNode conversationId node verified
  | markVerified conversationId nodeHash =>
      exact (h.ensureConversation _).update _ fun hcontext => hcontext.markVerified nodeHash
  | putWireNode conversationId nodeHash wire =>
      have hwritten := (h.ensureConversation conversationId).update conversationId
        fun {context} hcontext => hcontext.withFiles context.files.keys
          (context.files.opaqueStore.putNode nodeHash (WireFormat.serializeWire wire))
      intro other context hget
      exact hwritten _ _ hget
  | removeWireNode conversationId nodeHash =>
      have hremoved := (h.ensureConversation conversationId).update conversationId
        fun {context} hcontext => hcontext.withFiles context.files.keys
          (context.files.opaqueStore.removeNode nodeHash)
      intro other context hget
      exact hremoved _ _ hget
  | putRatchetKey conversationId nodeHash chainKey epochId =>
      exact (h.ensureConversation _).update _ fun hcontext =>
        hcontext.putRatchetKey nodeHash chainKey epochId
  | removeRatchetKey conversationId nodeHash =>
      exact h.update _ fun hcontext => hcontext.removeRatchetKey nodeHash
  | setHeads conversationId heads
  | setAdminHeads conversationId heads => exact h.saveState _ (fun _ => rfl) fun _ => rfl
  | putConversationKey conversationId epoch kConv =>
      exact (h.ensureConversation _).update _ fun {context} hcontext =>
        hcontext.withFiles (context.files.keys.insert epoch kConv) context.files.opaqueStore
  | updateEpochMetadata conversationId messageCount lastRotationTime =>
      exact h.saveState _ (fun _ => rfl) fun _ => rfl
  | compact conversationId => exact (h.ensureConversation _).compactInternal _
  | reopen order => exact h.reopen order
  | wait nanoseconds => exact fun _ _ hget => (h _ _ hget).mono (Nat.le_add_right _ _)

theorem wellFormed_run [WireFormat] (commands : List Command) :
    (new.run commands).WellFormed := by
  refine runFrom_invariant ?_ commands (wellFormed_empty 0)
  exact fun _ command h => WellFormed.step h command

/-! ## Properties of single conversations -/

/-- A property of conversations that every write keeps, except that of a ratchet key. -/
structure Stable (P : ConversationContext → Prop) : Prop where
  fresh : ∀ now, P (.unreplayed (.new now) .initial [])
  saveState : ∀ {context : ConversationContext} state, P context → P (context.saveState state)
  withFiles : ∀ {context : ConversationContext} keys opaqueStore, P context →
    P { context with files := { context.files with
      keys := keys, opaqueStore := opaqueStore } }
  recordNode : ∀ {context : ConversationContext} node verified, P context →
    P (context.recordNode node verified)
  markVerified : ∀ {context : ConversationContext} nodeHash, P context →
    P (context.markVerified nodeHash)
  removeRatchetKey : ∀ {context : ConversationContext} nodeHash, P context →
    P (context.removeRatchetKey nodeHash)
  compactInternal : ∀ {context : ConversationContext} packId, P context →
    P (context.compactInternal packId)
  rebuilt : ∀ {context : ConversationContext}, P context → P context.rebuilt

/-- A property that is asked for under a condition only. -/
theorem Stable.imp {P : ConversationContext → Prop} (h : Stable P) (condition : Prop) :
    Stable fun context => condition → P context where
  fresh now _ := h.fresh now
  saveState state hbefore hcondition := h.saveState state (hbefore hcondition)
  withFiles keys opaqueStore hbefore hcondition := h.withFiles keys opaqueStore (hbefore hcondition)
  recordNode node verified hbefore hcondition := h.recordNode node verified (hbefore hcondition)
  markVerified nodeHash hbefore hcondition := h.markVerified nodeHash (hbefore hcondition)
  removeRatchetKey nodeHash hbefore hcondition := h.removeRatchetKey nodeHash (hbefore hcondition)
  compactInternal packId hbefore hcondition := h.compactInternal packId (hbefore hcondition)
  rebuilt hbefore hcondition := h.rebuilt (hbefore hcondition)

/-- Every open conversation has the property given for it. -/
def Everywhere (P : ConversationId → ConversationContext → Prop) (store : FsStore) : Prop :=
  ∀ conversationId context, store.context conversationId = some context →
    P conversationId context

section Everywhere

variable {P : ConversationId → ConversationContext → Prop}

omit [IndexSearch] [Primitives] in
theorem Everywhere.update (h : store.Everywhere P) (conversationId : ConversationId)
    (hkeeps : ∀ context, P conversationId context → P conversationId (f context)) :
    (store.update conversationId f).Everywhere P := by
  intro other context hget
  rw [context_update] at hget
  split at hget
  next heq =>
    obtain ⟨before, hbefore, rfl⟩ := Option.map_eq_some_iff.mp hget
    subst heq
    exact hkeeps before (h _ _ hbefore)
  next => exact h _ _ hget

theorem Everywhere.ensureConversation (h : store.Everywhere P)
    (hfresh : ∀ now, P conversationId (.unreplayed (.new now) .initial [])) :
    (store.ensureConversation conversationId).Everywhere P := by
  rw [ensureConversation_eq]
  split
  next => exact h
  next => exact AssocMap.forall_insert h (hfresh _)

theorem Everywhere.step [WireFormat] (h : store.Everywhere P)
    (hstable : ∀ conversationId, Stable (P conversationId)) (hwell : store.WellFormed)
    {command : Command}
    (hput : ∀ conversationId nodeHash chainKey epochId,
      command = .putRatchetKey conversationId nodeHash chainKey epochId →
        ∀ context, P conversationId context →
          P conversationId (context.putRatchetKey nodeHash chainKey epochId)) :
    (store.step command).Everywhere P := by
  have hensure := fun conversationId => h.ensureConversation (hstable conversationId).fresh
  -- A command opens the conversation if need be and rewrites its context; the others stay.
  cases command with
  | putNode conversationId node verified =>
      have hrecorded : (store.recordNode conversationId node verified).Everywhere P :=
        (hensure conversationId).update conversationId fun _ =>
          (hstable conversationId).recordNode node verified
      rw [FsStore.step, FsStore.putNode]
      split
      · exact hrecorded.update conversationId fun _ => (hstable conversationId).compactInternal _
      · exact hrecorded
  | markVerified conversationId nodeHash =>
      exact (hensure _).update _ fun _ => (hstable conversationId).markVerified nodeHash
  | putWireNode conversationId nodeHash wire =>
      exact (hensure _).update conversationId fun _ => (hstable conversationId).withFiles _ _
  | removeWireNode conversationId nodeHash =>
      exact (hensure _).update conversationId fun _ => (hstable conversationId).withFiles _ _
  | putRatchetKey conversationId nodeHash chainKey epochId =>
      exact (hensure _).update _ (hput _ _ _ _ rfl)
  | removeRatchetKey conversationId nodeHash =>
      exact h.update _ fun _ => (hstable conversationId).removeRatchetKey nodeHash
  | setHeads conversationId heads =>
      exact (hensure _).update _ fun _ => (hstable conversationId).saveState _
  | setAdminHeads conversationId heads =>
      exact (hensure _).update _ fun _ => (hstable conversationId).saveState _
  | putConversationKey conversationId epoch kConv =>
      exact (hensure _).update _ fun _ => (hstable conversationId).withFiles _ _
  | updateEpochMetadata conversationId messageCount lastRotationTime =>
      exact (hensure _).update _ fun _ => (hstable conversationId).saveState _
  | compact conversationId =>
      exact (hensure conversationId).update conversationId fun _ =>
        (hstable conversationId).compactInternal _
  | reopen order =>
      intro conversationId context hcontext
      rw [FsStore.step, hwell.context_reopen] at hcontext
      obtain ⟨before, hbefore, rfl⟩ := Option.map_eq_some_iff.mp hcontext
      exact (hstable conversationId).rebuilt (h _ _ hbefore)
  | wait nanoseconds => exact h

/-- A run keeps a property that its writes of ratchet keys keep as well. -/
theorem Everywhere.run [WireFormat] (h : store.Everywhere P)
    (hstable : ∀ conversationId, Stable (P conversationId)) (hwell : store.WellFormed)
    {commands : List Command}
    (hput : ∀ conversationId nodeHash chainKey epochId,
      .putRatchetKey conversationId nodeHash chainKey epochId ∈ commands →
        ∀ context, P conversationId context →
          P conversationId (context.putRatchetKey nodeHash chainKey epochId)) :
    (store.run commands).Everywhere P := by
  have hstep : ∀ store : FsStore, ∀ command ∈ commands,
      store.WellFormed ∧ store.Everywhere P →
        (store.step command).WellFormed ∧ (store.step command).Everywhere P := by
    rintro store command hmem ⟨hwell, h⟩
    refine ⟨hwell.step command, h.step hstable hwell ?_⟩
    rintro conversationId nodeHash chainKey epochId rfl
    exact hput _ _ _ _ hmem
  exact (runFrom_invariant_of_mem hstep ⟨hwell, h⟩).2

end Everywhere

end FsStore

end MerkleTox.Fs
