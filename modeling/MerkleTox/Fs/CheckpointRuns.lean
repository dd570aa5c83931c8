import MerkleTox.Fs.Checkpoints
import MerkleTox.Fs.Commands
import MerkleTox.Fs.Reference

/-! # Checkpoints along runs

Slots change only in compactions, so a run keeps the checkpoints right as long as each
compaction finds an orderly journal.
-/

namespace MerkleTox.Fs

open Library Proto MerkleTox.Core

variable {after opened : FsStore} {command : Command} {commands : List Command}

/-! ## Conversations between their compactions -/

/-- The slots stay and the journal goes on. -/
structure ConversationContext.Extends (before after : ConversationContext) : Prop where
  slots : after.files.ratchet = before.files.ratchet
  records : before.files.journal.records <+: after.files.journal.records

theorem ConversationContext.extends_of_files {before after : ConversationContext}
    (hfiles : after.files = before.files) : before.Extends after :=
  ⟨by rw [hfiles], hfiles ▸ List.prefix_rfl⟩

namespace FsStore

def slots (store : FsStore) (conversationId : ConversationId) : List RatchetSlot :=
  ((store.context conversationId).map fun context => context.files.ratchet).getD []

def records (store : FsStore) (conversationId : ConversationId) : List JournalRecord :=
  ((store.context conversationId).map fun context => context.files.journal.records).getD []

/-- The slots of the conversation stay and its journal goes on. -/
structure Grows (conversationId : ConversationId) (before after : FsStore) : Prop where
  slots : after.slots conversationId = before.slots conversationId
  records : before.records conversationId <+: after.records conversationId

variable {store : FsStore} {conversationId : ConversationId}
variable {context : ConversationContext} {f : ConversationContext → ConversationContext}

theorem slots_of_context (hcontext : store.context conversationId = some context) :
    store.slots conversationId = context.files.ratchet := by
  rw [slots, hcontext]
  rfl

theorem records_of_context (hcontext : store.context conversationId = some context) :
    store.records conversationId = context.files.journal.records := by
  rw [records, hcontext]
  rfl

theorem Grows.of_context (hcontext : after.context conversationId = store.context conversationId) :
    Grows conversationId store after where
  slots := by rw [FsStore.slots, FsStore.slots, hcontext]
  records := by simp only [FsStore.records, hcontext, List.prefix_rfl]

theorem Grows.trans {middle last : FsStore} (hfirst : Grows conversationId store middle)
    (hsecond : Grows conversationId middle last) : Grows conversationId store last :=
  ⟨hsecond.slots.trans hfirst.slots, hfirst.records.trans hsecond.records⟩

/-- The conversation is rewritten to one that goes on from it. -/
theorem Grows.of_map (hextends : ∀ context : ConversationContext, context.Extends (f context))
    (hcontext : after.context conversationId = (store.context conversationId).map f) :
    Grows conversationId store after := by
  cases hbefore : store.context conversationId with
  | none => exact .of_context (by rw [hcontext, hbefore, Option.map_none])
  | some context =>
      rw [hbefore, Option.map_some] at hcontext
      refine ⟨?_, ?_⟩
      · rw [slots_of_context hcontext, slots_of_context hbefore, (hextends context).slots]
      · rw [records_of_context hcontext, records_of_context hbefore]
        exact (hextends context).records

theorem grows_update (other : ConversationId)
    (hextends : ∀ context : ConversationContext, context.Extends (f context)) :
    Grows conversationId store (store.update other f) := by
  by_cases heq : conversationId = other
  · exact .of_map hextends (by rw [context_update, if_pos heq])
  · exact .of_context (by rw [context_update, if_neg heq])

section Step

variable [IndexSearch] [Primitives]

/-- A conversation that is opened for the first time has no slots and no records. -/
theorem grows_ensureConversation (other : ConversationId) :
    Grows conversationId store (store.ensureConversation other) := by
  rw [ensureConversation_eq]
  split
  next => exact .of_context rfl
  next habsent =>
    by_cases heq : conversationId = other
    · have hnone : store.context conversationId = none := by
        rwa [AssocMap.contains_eq, Bool.not_eq_true, Option.isSome_eq_false_iff,
          Option.isNone_iff_eq_none, ← heq] at habsent
      have hopened := AssocMap.get_insert_self store.conversations conversationId
        (.unreplayed (.new store.now) .initial [])
      rw [← heq]
      refine ⟨?_, ?_⟩
      · rw [FsStore.slots, FsStore.slots, FsStore.context, hopened, hnone]
        rfl
      · rw [FsStore.records, FsStore.records, hnone]
        exact List.nil_prefix
    · exact .of_context (AssocMap.get_insert_of_ne _ _ heq)

theorem grows_recordNode (other : ConversationId) (node : MerkleNode) (verified : Bool) :
    Grows conversationId store (store.recordNode other node verified) := by
  have hwritten : Grows conversationId (store.ensureConversation other)
      ((store.ensureConversation other).update other fun context =>
        context.recordNode node verified) :=
    grows_update other fun _ => ⟨rfl, List.prefix_append _ _⟩
  exact (grows_ensureConversation other).trans (hwritten.trans (.of_context rfl))

/-- The conversation if its journal has nodes to pack. -/
def packable (store : FsStore) (conversationId : ConversationId) : Option ConversationContext :=
  (store.context conversationId).filter fun context => !context.nodesToPack.isEmpty

/-- The conversation as a command finds it that compacts it. -/
def compacted (store : FsStore) (conversationId : ConversationId) :
    Command → Option ConversationContext
  | .compact other =>
      if other = conversationId then (store.ensureConversation other).packable other else none
  | .putNode other node verified =>
      let recorded := store.recordNode other node verified
      if other = conversationId ∧ recorded.isFull other then recorded.packable other else none
  | _ => none

omit [IndexSearch] in
/-- A journal without nodes is not compacted. -/
theorem grows_compactInternal {other : ConversationId}
    (hnone : other = conversationId → store.packable other = none) :
    Grows conversationId store (store.compactInternal other) := by
  have hcontext : (store.compactInternal other).context conversationId =
      (store.update other fun context => context.compactInternal store.now).context
        conversationId := rfl
  rw [context_update] at hcontext
  split at hcontext
  next heq =>
    subst heq
    refine .of_context (hcontext.trans ?_)
    have hpackable := hnone rfl
    cases hget : store.context conversationId with
    | none => rfl
    | some context =>
        rw [packable, hget, Option.filter_some, ite_eq_right_iff] at hpackable
        have hempty : context.nodesToPack.isEmpty = true := by
          by_contra hne
          exact absurd (hpackable (by simpa using hne)) (by simp)
        rw [Option.map_some, ConversationContext.compactInternal, if_pos hempty]
  next => exact .of_context hcontext

variable {context : ConversationContext} {keys : PhysicalDevicePk → List KeyWrite}

omit [IndexSearch] in
theorem slots_compactInternal (hpackable : store.packable conversationId = some context) :
    (store.compactInternal conversationId).slots conversationId = context.compactedSlots := by
  obtain ⟨hcontext, hnodes⟩ := Option.filter_eq_some_iff.mp hpackable
  have hafter : (store.compactInternal conversationId).context conversationId =
      some (context.compactInternal store.now) := by
    have hupdate : (store.compactInternal conversationId).context conversationId =
      (store.update conversationId fun context =>
        context.compactInternal store.now).context conversationId := rfl
    rw [hupdate, context_update, if_pos rfl, hcontext, Option.map_some]
  rw [slots_of_context hafter, ConversationContext.compactInternal, if_neg (by simpa using hnodes)]
  rfl

/-- A command that does not compact the conversation leaves its slots and continues its
journal. -/
theorem grows_step [WireFormat] (hwell : store.WellFormed)
    (hnone : store.compacted conversationId command = none) :
    Grows conversationId store (store.step command) := by
  have hopened : ∀ other {f : ConversationContext → ConversationContext},
      (∀ context : ConversationContext, context.Extends (f context)) →
        Grows conversationId store ((store.ensureConversation other).update other f) :=
    fun other _ hextends => (grows_ensureConversation other).trans (grows_update other hextends)
  cases command with
  | putNode other node verified =>
      have hrecorded : Grows conversationId store (store.recordNode other node verified) :=
        grows_recordNode other node verified
      simp only [compacted] at hnone
      unfold FsStore.step FsStore.putNode
      dsimp only
      split
      next hfull =>
        refine hrecorded.trans (grows_compactInternal fun heq => ?_)
        rwa [if_pos ⟨heq, hfull⟩] at hnone
      next => exact hrecorded
  | compact other =>
      simp only [compacted] at hnone
      refine (grows_ensureConversation other).trans (grows_compactInternal fun heq => ?_)
      rwa [if_pos heq] at hnone
  | reopen order =>
      refine .of_map (fun context => ?_) (hwell.context_reopen order conversationId)
      obtain ⟨volatileNodes, hotRatchets, lastSeqNumbers, childIndex, hframe⟩ :=
        context.rebuilt_frame
      exact ConversationContext.extends_of_files (by rw [hframe])
  | markVerified other nodeHash =>
      refine hopened other fun context => ?_
      unfold ConversationContext.markVerified
      split
      · split
        · exact ConversationContext.extends_of_files rfl
        · exact ⟨rfl, List.prefix_append _ _⟩
      · exact ConversationContext.extends_of_files rfl
  | putRatchetKey other nodeHash chainKey epochId =>
      exact hopened other fun _ => ⟨rfl, List.prefix_append _ _⟩
  | removeRatchetKey other nodeHash =>
      exact grows_update other fun _ => ConversationContext.extends_of_files rfl
  | putWireNode other nodeHash wire =>
      exact (@hopened other (fun context => { context with files := { context.files with
        opaqueStore := context.files.opaqueStore.putNode nodeHash
          (WireFormat.serializeWire wire) } }) fun _ => ⟨rfl, List.prefix_rfl⟩).trans
            (.of_context rfl)
  | removeWireNode other nodeHash =>
      exact (@hopened other (fun context => { context with files := { context.files with
        opaqueStore := context.files.opaqueStore.removeNode nodeHash } }) fun _ =>
          ⟨rfl, List.prefix_rfl⟩).trans (.of_context rfl)
  | setHeads other heads | setAdminHeads other heads
  | putConversationKey other epoch kConv => exact hopened other fun _ => ⟨rfl, List.prefix_rfl⟩
  | updateEpochMetadata other messageCount lastRotationTime =>
      exact hopened other fun _ => ⟨rfl, List.prefix_rfl⟩
  | wait nanoseconds => exact .of_context rfl

/-- What a compaction of the conversation starts from, and what it leaves. -/
structure Compacts (conversationId : ConversationId) (store after : FsStore)
    (context : ConversationContext) : Prop where
  before : context.files.ratchet = store.slots conversationId
  records : store.records conversationId <+: context.files.journal.records
  well : ∃ clock, context.WellFormed clock
  after : after.slots conversationId = context.compactedSlots

theorem compacts_of_packable (hgrows : Grows conversationId store opened)
    (hwell : opened.WellFormed) (hpackable : opened.packable conversationId = some context) :
    Compacts conversationId store (opened.compactInternal conversationId) context := by
  obtain ⟨hcontext, -⟩ := Option.filter_eq_some_iff.mp hpackable
  have hslots := slots_of_context hcontext
  have hrecords := records_of_context hcontext
  exact ⟨hslots.symm.trans hgrows.slots, hrecords ▸ hgrows.records,
    ⟨_, hwell _ _ hcontext⟩, slots_compactInternal hpackable⟩

theorem compacts_step [WireFormat] (hwell : store.WellFormed)
    (hcompacted : store.compacted conversationId command = some context) :
    Compacts conversationId store (store.step command) context := by
  cases command with
  | putNode other node verified =>
      simp only [compacted] at hcompacted
      split at hcompacted
      next hfull =>
        obtain ⟨rfl, hfull⟩ := hfull
        unfold FsStore.step FsStore.putNode
        dsimp only
        rw [if_pos hfull]
        exact compacts_of_packable (grows_recordNode other node verified)
          (hwell.recordNode other node verified) hcompacted
      next => cases hcompacted
  | compact other =>
      simp only [compacted] at hcompacted
      split at hcompacted
      next heq =>
        subst heq
        exact compacts_of_packable (grows_ensureConversation other)
          (hwell.ensureConversation other) hcompacted
      next => cases hcompacted
  | _ => cases hcompacted

variable [WireFormat]

/-- The keys that the compactions of a run have taken from the journal of a conversation,
for the nodes of one sender in the order in which they were written. -/
def compactedKeys (conversationId : ConversationId) (senderPk : PhysicalDevicePk) :
    FsStore → List Command → List KeyWrite
  | _, [] => []
  | store, command :: rest =>
      ((store.compacted conversationId command).elim [] fun context =>
        keyWrites (context.senderEvents senderPk)) ++
          compactedKeys conversationId senderPk (store.step command) rest

/-- A compaction of the conversation finds an orderly journal. -/
def CompactsOrderly (conversationId : ConversationId) (store : FsStore) (command : Command) :
    Prop :=
  ∀ context, store.compacted conversationId command = some context → context.Orderly

/-- The slots are checkpoints of keys that are keys indeed. -/
structure SettledSlots (slots : List RatchetSlot) (keys : PhysicalDevicePk → List KeyWrite) :
    Prop extends Checkpointed slots keys where
  areKeys : ∀ senderPk, ∀ write ∈ highest (keys senderPk), write.chainKey ≠ noKey

omit [IndexSearch] [Primitives] [WireFormat] in
theorem settledSlots_nil : SettledSlots [] fun _ => [] where
  nodup := List.nodup_nil
  holds _ := fun _ hheld => nomatch hheld
  areKeys _ := fun _ hwrite => nomatch hwrite

omit [IndexSearch] [Primitives] [WireFormat] in
theorem SettledSlots.compact (h : SettledSlots context.files.ratchet keys)
    (horderly : context.Orderly) :
    SettledSlots context.compactedSlots fun senderPk =>
      keys senderPk ++ keyWrites (context.senderEvents senderPk) := by
  have hmerge := fun senderPk =>
    (h.holds senderPk).merge (h.areKeys senderPk) (horderly.forSenders senderPk)
  refine ⟨⟨ConversationContext.nodup_compactedSlots h.nodup, fun senderPk => ?_⟩,
    fun senderPk => (hmerge senderPk).2⟩
  rw [context.slotOf_compactedSlots]
  exact (hmerge senderPk).1

theorem SettledSlots.run (h : SettledSlots (store.slots conversationId) keys)
    (hwell : store.WellFormed)
    (hmeets : RunMeets step (CompactsOrderly conversationId) store commands) :
    SettledSlots ((store.run commands).slots conversationId) fun senderPk =>
      keys senderPk ++ compactedKeys conversationId senderPk store commands := by
  induction commands generalizing store keys with
  | nil =>
      simp only [compactedKeys, List.append_nil]
      exact h
  | cons command rest ih =>
      obtain ⟨horderly, hrest⟩ := hmeets
      -- What the command leaves, with the keys that its compaction takes from the journal.
      have hnext : SettledSlots ((store.step command).slots conversationId) fun senderPk =>
          keys senderPk ++ (store.compacted conversationId command).elim [] fun context =>
            keyWrites (context.senderEvents senderPk) := by
        cases hcompacted : store.compacted conversationId command with
        | none =>
            rw [(grows_step hwell hcompacted).slots]
            simpa using h
        | some context =>
            have hcompacts := compacts_step hwell hcompacted
            rw [← hcompacts.before] at h
            rw [hcompacts.after]
            exact h.compact (horderly context hcompacted)
      have hrun := ih hnext (hwell.step command) hrest
      simp only [compactedKeys, ← List.append_assoc]
      exact hrun

/-- The number of a slot does not fall, whatever the commands. -/
theorem slots_run_mono (hwell : store.WellFormed) (conversationId : ConversationId)
    (commands : List Command) {senderPk : PhysicalDevicePk} {held : RatchetSlot}
    (hheld : slotOf (store.slots conversationId) senderPk = some held) :
    ∃ after, slotOf ((store.run commands).slots conversationId) senderPk = some after ∧
      held.lastSequenceNumber ≤ after.lastSequenceNumber := by
  induction commands generalizing store held with
  | nil => exact ⟨held, hheld, Nat.le_refl _⟩
  | cons command rest ih =>
      have hnext : ∃ middle,
          slotOf ((store.step command).slots conversationId) senderPk = some middle ∧
            held.lastSequenceNumber ≤ middle.lastSequenceNumber := by
        cases hcompacted : store.compacted conversationId command with
        | none =>
            rw [(grows_step hwell hcompacted).slots]
            exact ⟨held, hheld, Nat.le_refl _⟩
        | some context =>
            have hcompacts := compacts_step hwell hcompacted
            rw [hcompacts.after, context.slotOf_compactedSlots, hcompacts.before]
            exact le_mergedEvents hheld
      obtain ⟨middle, hmiddle, hle⟩ := hnext
      obtain ⟨after, hafter, hle'⟩ := ih (hwell.step command) hmiddle
      exact ⟨after, hafter, Nat.le_trans hle hle'⟩

/-! ## No key is left out -/

/-- A key stands in the journal, or was taken from it for a node of its hash. -/
def Accounted (nodeHash : NodeHash) (chainKey : ChainKey) (epochId : Nat)
    (records : List JournalRecord) (keys : PhysicalDevicePk → List KeyWrite) : Prop :=
  .ratchetAdvance nodeHash chainKey epochId ∈ records ∨
    ∃ node, hash node = nodeHash ∧ ⟨node.seq, chainKey, epochId⟩ ∈ keys node.senderPk

section Accounted

variable {nodeHash : NodeHash} {chainKey : ChainKey} {epochId : Nat}

omit [IndexSearch] [WireFormat] in
theorem Accounted.append {records : List JournalRecord} {keys : PhysicalDevicePk → List KeyWrite}
    (h : Accounted nodeHash chainKey epochId records keys) {more : List JournalRecord}
    (hrecords : records <+: more) (others : PhysicalDevicePk → List KeyWrite) :
    Accounted nodeHash chainKey epochId more fun senderPk => keys senderPk ++ others senderPk := by
  rcases h with hmem | ⟨node, hhash, hmem⟩
  · exact .inl (hrecords.subset hmem)
  · exact .inr ⟨node, hhash, List.mem_append_left _ hmem⟩

omit [WireFormat] in
/-- A compaction takes every key of an orderly journal. -/
theorem accounted_of_orderly {context : ConversationContext} {clock : Nat}
    (hwell : context.WellFormed clock) (horderly : context.Orderly)
    (hmem : .ratchetAdvance nodeHash chainKey epochId ∈ context.files.journal.records) :
    ∃ node, hash node = nodeHash ∧
      ⟨node.seq, chainKey, epochId⟩ ∈ keyWrites (context.senderEvents node.senderPk) := by
  obtain ⟨info, hget⟩ := Option.isSome_iff_exists.mp (horderly.forNodes _ _ _ hmem)
  obtain ⟨verified, node, -, hhash, hdescribes⟩ := hwell.recorded hget
  refine ⟨node, hhash, List.mem_filterMap.mpr ⟨.keyed ⟨_, chainKey, epochId⟩, ?_, rfl⟩⟩
  refine List.mem_filterMap.mpr ⟨_, hmem, ?_⟩
  rw [ConversationContext.senderEvent, hget, Option.bind_some, if_pos hdescribes.senderPk,
    hdescribes.sequenceNumber]

omit [WireFormat] in
theorem mem_records_putRatchetKey :
    .ratchetAdvance nodeHash chainKey epochId ∈
      (store.putRatchetKey conversationId nodeHash chainKey epochId).records conversationId := by
  obtain ⟨context, hcontext⟩ : ∃ context,
      (store.ensureConversation conversationId).context conversationId = some context := by
    rw [ensureConversation_eq]
    split
    next hopen =>
      rw [AssocMap.contains_eq] at hopen
      exact Option.isSome_iff_exists.mp hopen
    next => exact ⟨_, AssocMap.get_insert_self _ _ _⟩
  have hafter : (store.putRatchetKey conversationId nodeHash chainKey epochId).context
      conversationId = some (context.putRatchetKey nodeHash chainKey epochId) := by
    rw [putRatchetKey, context_update, if_pos rfl, hcontext, Option.map_some]
  rw [records_of_context hafter]
  exact List.mem_append_right _ (List.mem_singleton_self _)

theorem Accounted.run (keys : PhysicalDevicePk → List KeyWrite) (hwell : store.WellFormed)
    (hmeets : RunMeets step (CompactsOrderly conversationId) store commands)
    (h : Accounted nodeHash chainKey epochId (store.records conversationId) keys ∨
      .putRatchetKey conversationId nodeHash chainKey epochId ∈ commands) :
    Accounted nodeHash chainKey epochId ((store.run commands).records conversationId)
      fun senderPk => keys senderPk ++ compactedKeys conversationId senderPk store commands := by
  induction commands generalizing store keys with
  | nil =>
      simp only [compactedKeys, List.append_nil]
      exact h.resolve_right List.not_mem_nil
  | cons command rest ih =>
      obtain ⟨horderly, hrest⟩ := hmeets
      have hnext : Accounted nodeHash chainKey epochId
          ((store.step command).records conversationId) (fun senderPk =>
            keys senderPk ++ (store.compacted conversationId command).elim [] fun context =>
              keyWrites (context.senderEvents senderPk)) ∨
          .putRatchetKey conversationId nodeHash chainKey epochId ∈ rest := by
        rcases h with h | hmem
        · left
          cases hcompacted : store.compacted conversationId command with
          | none => exact h.append (grows_step hwell hcompacted).records _
          | some context =>
              have hcompacts := compacts_step hwell hcompacted
              obtain ⟨clock, hcontext⟩ := hcompacts.well
              rcases h with hmem | ⟨node, hhash, hmem⟩
              · obtain ⟨node, hhash, htaken⟩ := accounted_of_orderly hcontext
                  (horderly context hcompacted) (hcompacts.records.subset hmem)
                exact .inr ⟨node, hhash, List.mem_append_right _ htaken⟩
              · exact .inr ⟨node, hhash, List.mem_append_left _ hmem⟩
        · rcases List.mem_cons.mp hmem with rfl | hmem
          · exact .inl (.inl mem_records_putRatchetKey)
          · exact .inr hmem
      have hrun := ih _ (hwell.step command) hrest hnext
      simp only [compactedKeys, ← List.append_assoc]
      exact hrun

end Accounted

/-- While the journals that are compacted are orderly, each slot holds the highest key of
its sender, under the number and in the epoch of that key, and no key that was put is left
out. No slot ever goes back. -/
theorem checkpoints_consistent (conversationId : ConversationId) (commands : List Command)
    (hmeets : RunMeets step (CompactsOrderly conversationId) new commands) :
    Checkpointed ((new.run commands).slots conversationId)
        (fun senderPk => compactedKeys conversationId senderPk new commands) ∧
      (∀ nodeHash chainKey epochId,
        .putRatchetKey conversationId nodeHash chainKey epochId ∈ commands →
          Accounted nodeHash chainKey epochId ((new.run commands).records conversationId)
            fun senderPk => compactedKeys conversationId senderPk new commands) ∧
      ∀ further senderPk held,
        slotOf ((new.run commands).slots conversationId) senderPk = some held →
          ∃ after,
            slotOf ((new.run (commands ++ further)).slots conversationId) senderPk =
              some after ∧ held.lastSequenceNumber ≤ after.lastSequenceNumber := by
  have hempty : SettledSlots (new.slots conversationId) fun _ => [] := settledSlots_nil
  have hwell : new.WellFormed := wellFormed_empty 0
  have hrun := hempty.run hwell hmeets
  refine ⟨by simpa using hrun.toCheckpointed, fun nodeHash chainKey epochId hput => ?_,
    fun further senderPk held hheld => ?_⟩
  · simpa using Accounted.run (fun _ => []) hwell hmeets (.inr hput)
  · rw [FsStore.run, runFrom_append]
    exact slots_run_mono (wellFormed_run commands) conversationId further hheld

end Step

end FsStore

namespace Checkpoints

open Core.Reference Reference

/-- A node, its key, and a compaction. -/
def keyedOnce : List Command :=
  [.putNode room genesis true, .putRatchetKey room (hash genesis) ⟨7⟩ 0, .compact room]

theorem keyedOnce_orderly :
    RunMeets FsStore.step (FsStore.CompactsOrderly room) .new keyedOnce := by
  have hfirst : (FsStore.new.compacted room (.putNode room genesis true)).isSome = false := by
    decide +kernel
  refine ⟨fun context hcompacted => ?_, fun context hcompacted => ?_,
    fun context hcompacted => ?_, trivial⟩
  · rw [hcompacted] at hfirst
    cases hfirst
  · cases hcompacted
  · generalize hstore : FsStore.step (FsStore.step .new (.putNode room genesis true))
      (.putRatchetKey room (hash genesis) ⟨7⟩ 0) = store at hcompacted
    have hrecords : ((store.compacted room (.compact room)).map fun context =>
        context.files.journal.records) =
          some [.node true genesis, .ratchetAdvance (hash genesis) ⟨7⟩ 0] := by
      rw [← hstore]
      decide +kernel
    have hinfo : ((store.compacted room (.compact room)).map fun context =>
        (context.volatileNodes.get (hash genesis)).map fun info =>
          (info.senderPk, info.sequenceNumber)) = some (some (⟨1⟩, 1)) := by
      rw [← hstore]
      decide +kernel
    have hratchet : ((store.compacted room (.compact room)).map fun context =>
        context.files.ratchet) = some [] := by
      rw [← hstore]
      decide +kernel
    rw [hcompacted, Option.map_some, Option.some_inj] at hrecords hinfo hratchet
    obtain ⟨info, hget, hpair⟩ := Option.map_eq_some_iff.mp hinfo
    obtain ⟨hsender, hseq⟩ := Prod.mk.inj hpair
    refine ⟨fun nodeHash chainKey epochId hmem => ?_, fun senderPk => ?_⟩
    · rw [hrecords] at hmem
      obtain ⟨rfl, -, -⟩ : nodeHash = hash genesis ∧ chainKey = ⟨7⟩ ∧ epochId = 0 := by
        simpa using hmem
      rw [hget]
      rfl
    · rw [hratchet, ConversationContext.senderEvents, hrecords]
      by_cases hgenesis : senderPk = ⟨1⟩
      · subst hgenesis
        have hevents : [JournalRecord.node true genesis,
            .ratchetAdvance (hash genesis) ⟨7⟩ 0].filterMap
              (ConversationContext.senderEvent context.volatileNodes ⟨1⟩) =
              [.noted 1, .keyed ⟨1, ⟨7⟩, 0⟩] := by
          have hnode : genesis.senderPk = ⟨1⟩ ∧ genesis.seq = 1 := by decide
          simp [ConversationContext.senderEvent, hget, hsender, hseq, hnode]
        rw [hevents]
        exact .inl ⟨by decide, by decide, by decide, fun _ hheld => by cases hheld⟩
      · have hevents : [JournalRecord.node true genesis,
            .ratchetAdvance (hash genesis) ⟨7⟩ 0].filterMap
              (ConversationContext.senderEvent context.volatileNodes senderPk) = [] := by
          have hnode : genesis.senderPk = ⟨1⟩ := by decide
          simpa [ConversationContext.senderEvent, hget, hsender, hnode] using Ne.symm hgenesis
        rw [hevents]
        exact fun _ hheld => by cases hheld

theorem checkpoints_consistent_keyedOnce :
    Checkpointed ((FsStore.new.run keyedOnce).slots room)
      fun senderPk => FsStore.compactedKeys room senderPk .new keyedOnce :=
  (FsStore.checkpoints_consistent room keyedOnce keyedOnce_orderly).1

/-- A node with its key, another node of the sender without one, and a compaction. -/
def keyedThenBare : List Command :=
  [.putNode room genesis true, .putRatchetKey room (hash genesis) ⟨7⟩ 0,
    .putNode room { genesis with sequenceNumber := 2 } true, .compact room]

/-- A second node without a key moves the number of the slot and leaves the first key in
it. -/
theorem key_under_another_number :
    ¬ ∀ (conversationId : ConversationId) (commands : List Command),
      Checkpointed ((FsStore.new.run commands).slots conversationId)
        fun senderPk => FsStore.compactedKeys conversationId senderPk .new commands := by
  intro h
  have hholds := (h room keyedThenBare).holds ⟨1⟩
  have hhighest : highest (FsStore.compactedKeys room ⟨1⟩ .new keyedThenBare) =
      some ⟨1, ⟨7⟩, 0⟩ := by decide +kernel
  have hslot : slotOf ((FsStore.new.run keyedThenBare).slots room) ⟨1⟩ =
      some ⟨⟨1⟩, ⟨7⟩, 2, 0⟩ := by decide +kernel
  rw [Holds, hhighest, hslot] at hholds
  exact absurd hholds (by decide)

end Checkpoints

end MerkleTox.Fs
