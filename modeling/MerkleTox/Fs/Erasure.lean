import MerkleTox.Fs.Commands
import MerkleTox.Fs.Reference

/-! # Erased ratchet keys

Removing a ratchet key takes it out of memory only. Which files still yield it decides
whether it comes back.
-/

namespace MerkleTox.Fs

open Library Proto MerkleTox.Core

variable {chainKey : ChainKey} {packId epochId : Nat} {store : FsStore}

/-- The files have a chain key in the journal or in a slot. -/
def ConversationFiles.Yields (files : ConversationFiles) (chainKey : ChainKey) : Prop :=
  (∃ nodeHash epochId, .ratchetAdvance nodeHash chainKey epochId ∈ files.journal.records) ∨
    ∃ slot ∈ files.ratchet, slot.chainKey = chainKey

/-- The commands put a key for this node and for no other one. -/
structure KeyOf (commands : List Command) (conversationId : ConversationId)
    (nodeHash : NodeHash) (chainKey : ChainKey) : Prop where
  isKey : chainKey ≠ noKey
  put : ∃ epochId, .putRatchetKey conversationId nodeHash chainKey epochId ∈ commands
  only : ∀ conversationId' nodeHash' epochId,
    .putRatchetKey conversationId' nodeHash' chainKey epochId ∈ commands →
      conversationId' = conversationId ∧ nodeHash' = nodeHash

/-- No ratchet key is put for the node. -/
def PutsNoKey (commands : List Command) (conversationId : ConversationId)
    (nodeHash : NodeHash) : Prop :=
  ∀ chainKey epochId, .putRatchetKey conversationId nodeHash chainKey epochId ∉ commands

/-- Once a key is removed, whether it was put before or not, the keys of a run are those
that were put before the removal. -/
theorem keyOf_iff {before after : List Command} {conversationId : ConversationId}
    {nodeHash : NodeHash} (hafter : PutsNoKey after conversationId nodeHash) :
    KeyOf (before ++ .removeRatchetKey conversationId nodeHash :: after) conversationId nodeHash
        chainKey ↔
      KeyOf before conversationId nodeHash chainKey ∧
        ∀ conversationId' nodeHash' epochId,
          .putRatchetKey conversationId' nodeHash' chainKey epochId ∉ after := by
  constructor
  · intro hkey
    have hnone : ∀ conversationId' nodeHash' epochId,
        .putRatchetKey conversationId' nodeHash' chainKey epochId ∉ after := by
      intro conversationId' nodeHash' epochId hmem
      obtain ⟨rfl, rfl⟩ := hkey.only _ _ _
        (List.mem_append_right _ (List.mem_cons_of_mem _ hmem))
      exact hafter _ _ hmem
    refine ⟨⟨hkey.isKey, ?_, fun _ _ _ hmem => hkey.only _ _ _ (List.mem_append_left _ hmem)⟩,
      hnone⟩
    obtain ⟨epochId, hput⟩ := hkey.put
    refine ⟨epochId, (List.mem_append.mp hput).resolve_right fun hmem => ?_⟩
    exact hnone _ _ _ ((List.mem_cons.mp hmem).resolve_left nofun)
  · rintro ⟨hkey, hnone⟩
    obtain ⟨epochId, hput⟩ := hkey.put
    refine ⟨hkey.isKey, ⟨epochId, List.mem_append_left _ hput⟩, ?_⟩
    intro conversationId' nodeHash' epochId' hmem
    refine hkey.only _ _ epochId' ((List.mem_append.mp hmem).resolve_right fun hright => ?_)
    exact hnone _ _ _ ((List.mem_cons.mp hright).resolve_left nofun)

namespace ConversationContext

/-- What holds of the ratchet records of the journal and of the keys in the slots. -/
structure Holding (recorded : NodeHash → ChainKey → Prop) (kept : ChainKey → Prop)
    (context : ConversationContext) : Prop where
  journal : ∀ nodeHash chainKey epochId,
    .ratchetAdvance nodeHash chainKey epochId ∈ context.files.journal.records →
      recorded nodeHash chainKey
  slots : ∀ slot ∈ context.files.ratchet, slot.chainKey = noKey ∨ kept slot.chainKey

/-- Neither the memory nor the journal has a ratchet key for the node. -/
structure Forgets (nodeHash : NodeHash) (context : ConversationContext) : Prop where
  memory : context.getRatchetKey nodeHash = none
  journal : ∀ chainKey epochId,
    .ratchetAdvance nodeHash chainKey epochId ∉ context.files.journal.records

/-! ## What compaction writes to the slots -/

variable {slot : RatchetSlot} {slots : List RatchetSlot} {record : JournalRecord}

theorem chainKey_updateSlot {update : PhysicalDevicePk × ChainKey × Nat × Nat}
    (hmem : slot ∈ updateSlot slots update) :
    slot.chainKey = update.2.1 ∨ ∃ old ∈ slots, old.chainKey = slot.chainKey := by
  obtain ⟨devicePk, key, seq, epoch⟩ := update
  simp only [updateSlot] at hmem
  split at hmem
  · obtain ⟨old, hold, rfl⟩ := List.mem_map.mp hmem
    split
    · split
      · exact .inr ⟨old, hold, rfl⟩
      · exact .inl rfl
    · exact .inr ⟨old, hold, rfl⟩
  · rcases List.mem_append.mp hmem with hold | hnew
    · exact .inr ⟨slot, hold, rfl⟩
    · exact .inl (by rw [List.mem_singleton.mp hnew])

theorem chainKey_updateSlots {updates : List (PhysicalDevicePk × ChainKey × Nat × Nat)}
    (hmem : slot ∈ updates.foldl updateSlot slots) :
    (∃ update ∈ updates, slot.chainKey = update.2.1) ∨
      ∃ old ∈ slots, old.chainKey = slot.chainKey := by
  induction updates generalizing slots with
  | nil => exact .inr ⟨slot, hmem, rfl⟩
  | cons first rest ih =>
      obtain ⟨update, hupdate, heq⟩ | ⟨middle, hmiddle, heq⟩ := ih hmem
      · exact .inl ⟨update, List.mem_cons_of_mem _ hupdate, heq⟩
      · obtain hfirst | ⟨old, hold, hchain⟩ := chainKey_updateSlot hmiddle
        · exact .inl ⟨first, List.mem_cons_self, heq ▸ hfirst⟩
        · exact .inr ⟨old, hold, hchain.trans heq⟩

/-- The key of an update is that of a ratchet record. -/
theorem chainKey_noteUpdates (volatileNodes : AssocMap NodeHash JournalNodeInfo)
    (records : List JournalRecord) {devicePk : PhysicalDevicePk}
    {update : ChainKey × Nat × Nat}
    (hget : (records.foldl (noteUpdate volatileNodes) .empty).get devicePk = some update) :
    update.1 = noKey ∨
      ∃ nodeHash epochId, .ratchetAdvance nodeHash update.1 epochId ∈ records := by
  induction records using List.reverseRecOn generalizing devicePk update with
  | nil => cases hget
  | append_singleton records record ih =>
      have hearlier : ∀ {devicePk update},
          (records.foldl (noteUpdate volatileNodes) .empty).get devicePk = some update →
            update.1 = noKey ∨ ∃ nodeHash epochId,
              .ratchetAdvance nodeHash update.1 epochId ∈ records ++ [record] := by
        intro devicePk update hget
        refine (ih hget).imp_right ?_
        rintro ⟨nodeHash, epochId, hmem⟩
        exact ⟨nodeHash, epochId, List.mem_append_left _ hmem⟩
      rw [List.foldl_append] at hget
      cases record with
      | node verified node =>
          simp only [List.foldl_cons, List.foldl_nil, noteUpdate, AssocMap.get_insert] at hget
          split at hget
          · obtain rfl := Option.some.inj hget
            cases hold : (records.foldl (noteUpdate volatileNodes) .empty).get node.senderPk with
            | none => exact .inl rfl
            | some old =>
                have hkey := hearlier hold
                exact hkey
          · exact hearlier hget
      | promotion nodeHash => exact hearlier hget
      | ratchetAdvance nodeHash chainKey epochId =>
          simp only [List.foldl_cons, List.foldl_nil, noteUpdate] at hget
          split at hget
          · rw [AssocMap.get_insert] at hget
            split at hget
            · obtain rfl := Option.some.inj hget
              exact .inr ⟨nodeHash, epochId, List.mem_append_right _ List.mem_cons_self⟩
            · exact hearlier hget
          · exact hearlier hget

variable {context : ConversationContext}

/-- Compaction writes no key to a slot that the journal or a slot did not have. -/
theorem yields_of_compactInternal [Primitives]
    (hmem : slot ∈ (context.compactInternal packId).files.ratchet) (hkey : slot.chainKey ≠ noKey) :
    context.files.Yields slot.chainKey := by
  rw [compactInternal] at hmem
  split at hmem
  · exact .inr ⟨slot, hmem, rfl⟩
  · obtain ⟨⟨devicePk, update⟩, hupdate, heq⟩ | hslot := chainKey_updateSlots hmem
    · have hget := AssocMap.get_eq_some_iff.mpr hupdate
      have hnote := chainKey_noteUpdates _ _ hget
      rw [← heq] at hnote
      exact .inl (hnote.resolve_left hkey)
    · exact .inr hslot

theorem journal_compactInternal [Primitives]
    (hmem : record ∈ (context.compactInternal packId).files.journal.records) :
    record ∈ context.files.journal.records := by
  rw [compactInternal] at hmem
  split at hmem
  · exact hmem
  · cases hmem

/-! ## What a replay of the journal brings back -/

theorem replayAll_ratchet [IndexSearch] [Primitives] (files : ConversationFiles)
    (state : ConvState) (packs : List Pack) (records : List JournalRecord)
    (nodeHash : NodeHash) :
    (((unreplayed files state packs).replayAll records).hotRatchets.get nodeHash).isSome = true ↔
      ∃ chainKey epochId, .ratchetAdvance nodeHash chainKey epochId ∈ records := by
  induction records using List.reverseRecOn with
  | nil => simp [replayAll, unreplayed]
  | append_singleton records record ih =>
      have hother : (∀ chainKey epochId, record ≠ .ratchetAdvance nodeHash chainKey epochId) →
          ((∃ chainKey epochId, .ratchetAdvance nodeHash chainKey epochId ∈ records ++ [record]) ↔
            ∃ chainKey epochId, .ratchetAdvance nodeHash chainKey epochId ∈ records) := by
        intro hne
        simp only [List.mem_append, List.mem_singleton, (hne _ _).symm, or_false]
      rw [replayAll_concat]
      cases record with
      | node verified node
      | promotion promoted => exact ih.trans (hother fun _ _ heq => by cases heq).symm
      | ratchetAdvance advanced chainKey epochId =>
          simp only [replayRecord, AssocMap.get_insert]
          split
          next heq =>
            subst heq
            refine iff_of_true rfl ⟨chainKey, epochId, ?_⟩
            exact List.mem_append_right _ List.mem_cons_self
          next hne =>
            refine ih.trans (hother fun _ _ heq => hne ?_).symm
            injection heq with hhash
            exact hhash.symm

theorem rebuilt_ratchet [IndexSearch] [Primitives] (context : ConversationContext)
    (nodeHash : NodeHash) :
    (context.rebuilt.getRatchetKey nodeHash).isSome = true ↔
      ∃ chainKey epochId,
        .ratchetAdvance nodeHash chainKey epochId ∈ context.files.journal.records :=
  replayAll_ratchet _ _ _ _ _

/-! ## Writes -/

theorem mem_append_ratchet {nodeHash : NodeHash}
    (hrecord : record ≠ .ratchetAdvance nodeHash chainKey epochId) :
    .ratchetAdvance nodeHash chainKey epochId ∈ (context.append record).files.journal.records ↔
      .ratchetAdvance nodeHash chainKey epochId ∈ context.files.journal.records := by
  rw [append, Journal.append]
  simp only [List.mem_append, List.mem_singleton, hrecord.symm, or_false]

section Holding

variable {recorded : NodeHash → ChainKey → Prop} {kept : ChainKey → Prop}
  {context : ConversationContext}

theorem Holding.of_files {before : ConversationContext} (hfiles : before.files = context.files)
    (h : before.Holding recorded kept) : context.Holding recorded kept :=
  ⟨hfiles ▸ h.journal, hfiles ▸ h.slots⟩

theorem Holding.append (h : context.Holding recorded kept) (record : JournalRecord)
    (hrecord : ∀ nodeHash chainKey epochId,
      record = .ratchetAdvance nodeHash chainKey epochId → recorded nodeHash chainKey) :
    (context.append record).Holding recorded kept where
  journal nodeHash chainKey epochId hmem := by
    by_cases heq : record = .ratchetAdvance nodeHash chainKey epochId
    · exact hrecord _ _ _ heq
    · exact h.journal _ _ _ ((mem_append_ratchet heq).mp hmem)
  slots := h.slots

theorem Holding.putRatchetKey (h : context.Holding recorded kept) {nodeHash : NodeHash}
    (hput : recorded nodeHash chainKey) (epochId : Nat) :
    (context.putRatchetKey nodeHash chainKey epochId).Holding recorded kept := by
  have hwritten := h.append (.ratchetAdvance nodeHash chainKey epochId) fun _ _ _ heq => by
    cases heq
    exact hput
  exact ⟨hwritten.journal, hwritten.slots⟩

variable [IndexSearch] [Primitives]

/-- No write but that of a key puts one into the files. -/
theorem Holding.stable (hkept : ∀ nodeHash chainKey, recorded nodeHash chainKey → kept chainKey) :
    FsStore.Stable (Holding recorded kept) where
  fresh _ := ⟨fun _ _ _ hmem => absurd hmem List.not_mem_nil,
    fun _ hmem => absurd hmem List.not_mem_nil⟩
  saveState _ h := ⟨h.journal, h.slots⟩
  withFiles _ _ h := ⟨h.journal, h.slots⟩
  recordNode node verified h := by
    have hwritten := h.append (.node verified node) fun _ _ _ heq => by cases heq
    exact ⟨hwritten.journal, hwritten.slots⟩
  markVerified nodeHash h := by
    rw [ConversationContext.markVerified]
    split
    · split
      · exact h
      · have hwritten := h.append (.promotion nodeHash) fun _ _ _ heq => by cases heq
        exact ⟨hwritten.journal, hwritten.slots⟩
    · exact h
  removeRatchetKey _ h := ⟨h.journal, h.slots⟩
  compactInternal packId h := by
    refine ⟨fun _ _ _ hmem => h.journal _ _ _ (journal_compactInternal hmem), ?_⟩
    intro slot hmem
    by_cases hkey : slot.chainKey = noKey
    · exact .inl hkey
    · rcases yields_of_compactInternal hmem hkey with ⟨nodeHash, epochId, hrecord⟩ | hslot
      · exact .inr (hkept nodeHash _ (h.journal _ _ _ hrecord))
      · obtain ⟨old, hold, heq⟩ := hslot
        exact heq ▸ h.slots old hold
  rebuilt {context} h := by
    obtain ⟨_, _, _, _, hframe⟩ := context.rebuilt_frame
    rw [hframe]
    exact ⟨h.journal, h.slots⟩

theorem Forgets.stable (nodeHash : NodeHash) : FsStore.Stable (Forgets nodeHash) := by
  have hjournal : ∀ {context : ConversationContext}, context.Forgets nodeHash →
      context.Holding (fun other _ => other ≠ nodeHash) fun _ => True := fun h =>
    ⟨fun _ _ _ hmem heq => h.journal _ _ (heq ▸ hmem), fun _ _ => .inr trivial⟩
  have hforgets : ∀ {context : ConversationContext}, context.getRatchetKey nodeHash = none →
      context.Holding (fun other _ => other ≠ nodeHash) (fun _ => True) →
        context.Forgets nodeHash := fun hmemory h =>
    ⟨hmemory, fun _ _ hmem => h.journal _ _ _ hmem rfl⟩
  have hstable : FsStore.Stable (Holding (fun other _ => other ≠ nodeHash) fun _ => True) :=
    Holding.stable fun _ _ _ => trivial
  exact
    { fresh := fun now => hforgets rfl (hstable.fresh now)
      saveState := fun state h => hforgets h.memory (hstable.saveState state (hjournal h))
      withFiles := fun keys opaqueStore h =>
        hforgets h.memory (hstable.withFiles keys opaqueStore (hjournal h))
      recordNode := fun node verified h =>
        hforgets h.memory (hstable.recordNode node verified (hjournal h))
      markVerified := fun {context} promoted h => by
        refine hforgets ?_ (hstable.markVerified promoted (hjournal h))
        rw [ConversationContext.markVerified]
        split
        · split <;> exact h.memory
        · exact h.memory
      removeRatchetKey := fun {context} removed h => by
        refine hforgets ?_ (hstable.removeRatchetKey removed (hjournal h))
        by_cases heq : nodeHash = removed
        · exact heq ▸ AssocMap.get_erase_self _ _
        · exact (AssocMap.get_erase_of_ne _ heq).trans h.memory
      compactInternal := fun {context} packId h => by
        refine hforgets ?_ (hstable.compactInternal packId (hjournal h))
        rw [ConversationContext.compactInternal]
        split
        · exact h.memory
        · rfl
      rebuilt := fun {context} h => by
        refine hforgets ?_ (hstable.rebuilt (hjournal h))
        by_contra hsome
        obtain ⟨chainKey, epochId, hmem⟩ :=
          (rebuilt_ratchet _ _).mp (Option.isSome_iff_ne_none.mpr hsome)
        exact h.journal _ _ hmem }

end Holding

end ConversationContext

/-! ## Runs -/

namespace FsStore

variable [IndexSearch] [Primitives] [WireFormat]

/-- After the commands the store has no ratchet key for the node, and no conversation's
files yield a key that was put for it. -/
structure Erased (commands : List Command) (conversationId : ConversationId)
    (nodeHash : NodeHash) : Prop where
  unread : (new.run commands).getRatchetKey conversationId nodeHash = none
  unyielded : ∀ chainKey, KeyOf commands conversationId nodeHash chainKey →
    ∀ other context, (new.run commands).context other = some context →
      ¬ context.files.Yields chainKey

/-- The files of the conversation have neither a ratchet record of the node nor a slot
with a key that was put for it alone. -/
def FreeOfKeys (commands : List Command) (conversationId : ConversationId)
    (nodeHash : NodeHash) : Prop :=
  ∀ context, (new.run commands).context conversationId = some context →
    (∀ chainKey epochId,
      .ratchetAdvance nodeHash chainKey epochId ∉ context.files.journal.records) ∧
    ∀ slot ∈ context.files.ratchet, ¬ KeyOf commands conversationId nodeHash slot.chainKey

/-- The keys in the files of a run were put by its commands. -/
theorem everywhere_keysPut (commands : List Command) :
    (new.run commands).Everywhere fun conversationId =>
      ConversationContext.Holding
        (fun nodeHash chainKey => ∃ epochId,
          .putRatchetKey conversationId nodeHash chainKey epochId ∈ commands)
        fun chainKey => ∃ nodeHash epochId,
          .putRatchetKey conversationId nodeHash chainKey epochId ∈ commands := by
  refine Everywhere.run (fun _ _ hget => nomatch hget)
    (fun _ => ConversationContext.Holding.stable ?_) (wellFormed_empty 0) ?_
  · rintro nodeHash chainKey ⟨epochId, hput⟩
    exact ⟨nodeHash, epochId, hput⟩
  · intro conversationId nodeHash chainKey epochId hmem context hcontext
    exact hcontext.putRatchetKey ⟨epochId, hmem⟩ epochId

variable {nodeHash : NodeHash} {conversationId : ConversationId}

omit [IndexSearch] [Primitives] [WireFormat] in
/-- Removing a ratchet key leaves the files alone. -/
theorem context_removeRatchetKey {conversationId other : ConversationId}
    {context : ConversationContext}
    (hget : (store.removeRatchetKey conversationId nodeHash).context other = some context) :
    ∃ before, store.context other = some before ∧ before.files = context.files ∧
      (other = conversationId → context.getRatchetKey nodeHash = none) := by
  rw [removeRatchetKey, context_update] at hget
  split at hget
  next =>
    obtain ⟨before, hbefore, rfl⟩ := Option.map_eq_some_iff.mp hget
    exact ⟨before, hbefore, rfl, fun _ => AssocMap.get_erase_self _ _⟩
  next hne => exact ⟨context, hget, rfl, fun heq => absurd heq hne⟩

omit [IndexSearch] [Primitives] [WireFormat] in
theorem unread_of_forgets
    (h : ∀ context, store.context conversationId = some context → context.Forgets nodeHash) :
    store.getRatchetKey conversationId nodeHash = none := by
  rw [getRatchetKey]
  cases hcontext : store.context conversationId with
  | none => rfl
  | some context => exact (h context hcontext).memory

/-- A key that the files do not hold any more stays erased. -/
theorem erased_of_freeOfKeys {before after : List Command}
    (hfree : FreeOfKeys before conversationId nodeHash)
    (hafter : PutsNoKey after conversationId nodeHash) :
    Erased (before ++ .removeRatchetKey conversationId nodeHash :: after) conversationId
      nodeHash := by
  have hsplit : new.run (before ++ .removeRatchetKey conversationId nodeHash :: after) =
      ((new.run before).removeRatchetKey conversationId nodeHash).run after :=
    runFrom_append _ _ _
  have hwell : ((new.run before).removeRatchetKey conversationId nodeHash).WellFormed :=
    (wellFormed_run before).step (.removeRatchetKey conversationId nodeHash)
  constructor
  -- No query and no journal entry names the hash after the removal, and none of the later writes
  -- does.
  · have hforgets : Everywhere (fun other context =>
        other = conversationId → context.Forgets nodeHash)
          (new.run (before ++ .removeRatchetKey conversationId nodeHash :: after)) := by
      rw [hsplit]
      refine Everywhere.run ?_ (fun _ => (ConversationContext.Forgets.stable nodeHash).imp _)
        hwell ?_
      · rintro other context hget rfl
        obtain ⟨old, hold, hfiles, hmemory⟩ := context_removeRatchetKey hget
        exact ⟨hmemory rfl, fun _ _ => hfiles ▸ (hfree old hold).1 _ _⟩
      · rintro other written chainKey epochId hmem context hcontext rfl
        have hne : written ≠ nodeHash := fun heq => hafter _ _ (heq ▸ hmem)
        refine ⟨?_, fun chainKey' epochId' hrecord => ?_⟩
        · exact (AssocMap.get_insert_of_ne _ _ hne.symm).trans (hcontext rfl).memory
        · refine (hcontext rfl).journal _ _
            ((ConversationContext.mem_append_ratchet ?_).mp hrecord)
          intro heq
          injection heq with hhash
          exact hne hhash
    exact unread_of_forgets fun context hget => hforgets _ _ hget rfl
  · intro chainKey hkeyOf
    obtain ⟨hkey, hnone⟩ := (keyOf_iff hafter).mp hkeyOf
    -- The key itself is nowhere else: only the writes of this hash put it, and their slots were
    -- freed.
    have hwithout : Everywhere (fun _ => ConversationContext.Holding
        (fun _ other => other ≠ chainKey) fun other => other ≠ chainKey)
          (new.run (before ++ .removeRatchetKey conversationId nodeHash :: after)) := by
      rw [hsplit]
      have hstable : Stable (ConversationContext.Holding (fun _ other => other ≠ chainKey)
          fun other => other ≠ chainKey) := ConversationContext.Holding.stable fun _ _ hne => hne
      refine Everywhere.run ?_ (fun _ => hstable) hwell ?_
      · intro other context hget
        obtain ⟨old, hold, hfiles, -⟩ := context_removeRatchetKey hget
        have hput := everywhere_keysPut before other old hold
        refine .of_files hfiles ⟨?_, ?_⟩
        · rintro written _ epochId hrecord rfl
          obtain ⟨epochId', hmem⟩ := hput.journal _ _ _ hrecord
          obtain ⟨rfl, rfl⟩ := hkey.only _ _ _ hmem
          exact (hfree old hold).1 _ _ hrecord
        · intro slot hslot
          refine (hput.slots slot hslot).imp_right ?_
          rintro ⟨written, epochId, hmem⟩ rfl
          obtain ⟨rfl, rfl⟩ := hkey.only _ _ _ hmem
          exact (hfree old hold).2 slot hslot hkey
      · intro other written put epochId hmem context hcontext
        refine hcontext.putRatchetKey ?_ epochId
        rintro rfl
        exact hnone _ _ _ hmem
    rintro other context hget (⟨written, epochId, hrecord⟩ | ⟨slot, hslot, heq⟩)
    · exact (hwithout _ _ hget).journal _ _ _ hrecord rfl
    · rcases (hwithout _ _ hget).slots slot hslot with hzero | hne
      · exact hkey.isKey (heq.symm.trans hzero)
      · exact hne heq

/-- A key that the files still hold is read back, from the journal once the store is
reopened and from a slot at once. -/
theorem freeOfKeys_of_erased {before : List Command}
    (h : ∀ after, PutsNoKey after conversationId nodeHash →
      Erased (before ++ .removeRatchetKey conversationId nodeHash :: after) conversationId
        nodeHash) : FreeOfKeys before conversationId nodeHash := by
  intro context hcontext
  have hremoved : ((new.run before).removeRatchetKey conversationId nodeHash).context
      conversationId = some (context.removeRatchetKey nodeHash) := by
    rw [removeRatchetKey, context_update, if_pos rfl, hcontext]
    rfl
  refine ⟨fun chainKey epochId hrecord => ?_, fun slot hslot hkey => ?_⟩
  · have hnoKey : PutsNoKey [.reopen []] conversationId nodeHash := fun _ _ hmem => by
      cases List.mem_singleton.mp hmem
    have hunread := (h [.reopen []] hnoKey).unread
    have hwell : ((new.run before).removeRatchetKey conversationId nodeHash).WellFormed :=
      (wellFormed_run before).step (.removeRatchetKey conversationId nodeHash)
    have hsplit : new.run (before ++ [.removeRatchetKey conversationId nodeHash, .reopen []]) =
        ((new.run before).removeRatchetKey conversationId nodeHash).reopen [] :=
      runFrom_append _ _ _
    rw [hsplit, getRatchetKey, hwell.context_reopen, hremoved, Option.map_some,
      Option.bind_some] at hunread
    have hread := (ConversationContext.rebuilt_ratchet (context.removeRatchetKey nodeHash)
      nodeHash).mpr ⟨chainKey, epochId, hrecord⟩
    rw [hunread] at hread
    cases hread
  · have hnoKey : PutsNoKey [] conversationId nodeHash := fun _ _ => List.not_mem_nil
    have hkeyOf := (keyOf_iff hnoKey).mpr ⟨hkey, fun _ _ _ => List.not_mem_nil⟩
    have hsplit : new.run (before ++ [.removeRatchetKey conversationId nodeHash]) =
        (new.run before).removeRatchetKey conversationId nodeHash := runFrom_append _ _ _
    rw [← hsplit] at hremoved
    exact (h [] hnoKey).unyielded _ hkeyOf _ _ hremoved (.inr ⟨slot, hslot, rfl⟩)

/-- A removed ratchet key stays erased exactly if the files are free of it when it is
removed. -/
theorem erased_iff (before : List Command) (conversationId : ConversationId)
    (nodeHash : NodeHash) :
    (∀ after, PutsNoKey after conversationId nodeHash →
      Erased (before ++ .removeRatchetKey conversationId nodeHash :: after) conversationId
        nodeHash) ↔
      FreeOfKeys before conversationId nodeHash :=
  ⟨freeOfKeys_of_erased, fun hfree _ hafter => erased_of_freeOfKeys hfree hafter⟩

end FsStore

namespace Erasure

open Core.Reference Reference

/-- The key is in memory again once the store is reopened. -/
theorem removed_key_returns :
    ¬ FsStore.Erased ([.putNode room genesis true, .putRatchetKey room (hash genesis) ⟨7⟩ 0] ++
      .removeRatchetKey room (hash genesis) :: [.reopen []]) room (hash genesis) := by
  intro herased
  have hread : (FsStore.new.run ([.putNode room genesis true,
      .putRatchetKey room (hash genesis) ⟨7⟩ 0] ++
        .removeRatchetKey room (hash genesis) :: [.reopen []])).getRatchetKey room
          (hash genesis) = some (⟨7⟩, 0) := by decide +kernel
  rw [herased.unread] at hread
  cases hread

end Erasure

end MerkleTox.Fs
