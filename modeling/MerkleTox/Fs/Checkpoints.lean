import Mathlib.Data.List.MinMax
import MerkleTox.Fs.Consistency

/-! # Ratchet checkpoints

Compaction folds what the journal says about each sender into one entry and merges the
entry into the slot of the sender. Both steps move the sequence number of a sender for nodes
that have no key, so the slot keeps to the highest key only in journals that are orderly.
-/

namespace MerkleTox.Fs

open Library Proto MerkleTox.Core

variable {other last : KeyWrite} {numbers : List Nat} {held : RatchetSlot}
  {entry : ChainKey × Nat × Nat}

/-- A key as it was written for a node of a sender. -/
structure KeyWrite where
  sequenceNumber : Nat
  chainKey : ChainKey
  epochId : Nat
  deriving DecidableEq, Repr

/-- The write for the highest sequence number, the latest one among equals. -/
def highest (keys : List KeyWrite) : Option KeyWrite :=
  keys.reverse.argmax KeyWrite.sequenceNumber

section Highest

variable {keys : List KeyWrite} {write : KeyWrite}

theorem highest_append_singleton (keys : List KeyWrite) (write : KeyWrite) :
    highest (keys ++ [write]) =
      (highest keys).elim (some write) fun best =>
        if write.sequenceNumber < best.sequenceNumber then some best else some write := by
  rw [highest, List.reverse_append, List.reverse_singleton, List.singleton_append,
    List.argmax_cons]
  unfold highest
  cases List.argmax KeyWrite.sequenceNumber keys.reverse <;> rfl

theorem le_highest (hhighest : highest keys = some write) (hmem : other ∈ keys) :
    other.sequenceNumber ≤ write.sequenceNumber :=
  List.le_of_mem_argmax (List.mem_reverse.mpr hmem) hhighest

/-- A write that no earlier one exceeds is the highest. -/
theorem highest_of_forall_le
    (hle : ∀ other ∈ keys, other.sequenceNumber ≤ write.sequenceNumber) :
    highest (keys ++ [write]) = some write := by
  rw [highest_append_singleton]
  cases hbest : highest keys with
  | none => rfl
  | some best =>
      have hbound := hle best (List.mem_reverse.mp (List.argmax_mem hbest))
      rw [Option.elim_some, if_neg (Nat.not_lt.mpr hbound)]

/-- The highest write stays the highest when only lower ones follow. -/
theorem highest_append_of_forall_lt (hhighest : highest keys = some write)
    {later : List KeyWrite}
    (hlt : ∀ other ∈ later, other.sequenceNumber < write.sequenceNumber) :
    highest (keys ++ later) = some write := by
  induction later using List.reverseRecOn with
  | nil => rwa [List.append_nil]
  | append_singleton front last ih =>
      have hfront := ih fun other hmem => hlt other (List.mem_append_left _ hmem)
      have hlast := hlt last (List.mem_append_right _ (List.mem_singleton_self _))
      rw [← List.append_assoc, highest_append_singleton, hfront, Option.elim_some, if_pos hlast]

end Highest

/-! ## What a journal says about a sender -/

/-- A record about a sender: a node with its sequence number, or a key. -/
inductive RatchetEvent
  | noted (sequenceNumber : Nat)
  | keyed (write : KeyWrite)
  deriving DecidableEq, Repr

namespace RatchetEvent

def keyWrite? : RatchetEvent → Option KeyWrite
  | .noted _ => none
  | .keyed write => some write

/-- What the event makes of the entry of its sender. -/
def apply (entry : ChainKey × Nat × Nat) : RatchetEvent → ChainKey × Nat × Nat
  | .noted seq => (entry.1, max entry.2.1 seq, entry.2.2)
  | .keyed write => (write.chainKey, write.sequenceNumber, write.epochId)

end RatchetEvent

def keyWrites (events : List RatchetEvent) : List KeyWrite :=
  events.filterMap RatchetEvent.keyWrite?

/-- The sequence numbers of the nodes after the last key. -/
def sinceKey (events : List RatchetEvent) : List Nat :=
  events.foldl (fun numbers event =>
    match event with
    | .noted seq => numbers ++ [seq]
    | .keyed _ => []) []

variable (events : List RatchetEvent)

@[simp]
theorem keyWrites_append_noted (seq : Nat) :
    keyWrites (events ++ [.noted seq]) = keyWrites events := by
  simp [keyWrites, RatchetEvent.keyWrite?]

@[simp]
theorem keyWrites_append_keyed (write : KeyWrite) :
    keyWrites (events ++ [.keyed write]) = keyWrites events ++ [write] := by
  simp [keyWrites, RatchetEvent.keyWrite?]

@[simp]
theorem sinceKey_append_noted (seq : Nat) :
    sinceKey (events ++ [.noted seq]) = sinceKey events ++ [seq] := by
  simp [sinceKey]

@[simp]
theorem sinceKey_append_keyed (write : KeyWrite) :
    sinceKey (events ++ [.keyed write]) = [] := by
  simp [sinceKey]

/-- The entry takes key and epoch from the last key, and its number from whatever is
highest since then. -/
theorem foldl_apply :
    events.foldl RatchetEvent.apply (noKey, 0, 0) =
      match (keyWrites events).getLast? with
      | none => (noKey, (sinceKey events).foldl max 0, 0)
      | some last =>
          (last.chainKey, (sinceKey events).foldl max last.sequenceNumber, last.epochId) := by
  induction events using List.reverseRecOn with
  | nil => rfl
  | append_singleton front last ih =>
      rw [List.foldl_append, ih]
      cases last with
      | noted seq =>
          rw [keyWrites_append_noted, sinceKey_append_noted]
          cases (keyWrites front).getLast? with
          | none | some last => simp [RatchetEvent.apply]
      | keyed write => simp [RatchetEvent.apply]

theorem foldl_max_eq_self {start : Nat} (hle : ∀ number ∈ numbers, number ≤ start) :
    numbers.foldl max start = start := by
  induction numbers with
  | nil => rfl
  | cons number rest ih =>
      rw [List.foldl_cons, max_eq_left (hle number List.mem_cons_self)]
      exact ih fun other hmem => hle other (List.mem_cons_of_mem _ hmem)

theorem foldl_max_le {start bound : Nat} (hstart : start ≤ bound)
    (hle : ∀ number ∈ numbers, number ≤ bound) : numbers.foldl max start ≤ bound := by
  induction numbers generalizing start with
  | nil => exact hstart
  | cons number rest ih =>
      refine ih (max_le hstart (hle number List.mem_cons_self)) ?_
      exact fun other hmem => hle other (List.mem_cons_of_mem _ hmem)

/-! ## The slot of a sender -/

def slotOf (slots : List RatchetSlot) (senderPk : PhysicalDevicePk) : Option RatchetSlot :=
  slots.find? fun slot => slot.devicePk = senderPk

/-- The slot that an entry leaves to its sender. -/
def merged (senderPk : PhysicalDevicePk) (slot : Option RatchetSlot)
    (entry : ChainKey × Nat × Nat) : RatchetSlot :=
  match slot with
  | none => ⟨senderPk, entry.1, entry.2.1, entry.2.2⟩
  | some held =>
      if held.lastSequenceNumber < entry.2.1 then
        if entry.1 = noKey then { held with lastSequenceNumber := entry.2.1 }
        else ⟨senderPk, entry.1, entry.2.1, entry.2.2⟩
      else held

theorem devicePk_of_slotOf {slots : List RatchetSlot} {senderPk : PhysicalDevicePk}
    (hslot : slotOf slots senderPk = some held) :
    held.devicePk = senderPk := by
  unfold slotOf at hslot
  simpa using List.find?_some hslot

namespace ConversationContext

/-- What an update does to a slot. -/
def rewriteSlot (update : PhysicalDevicePk × ChainKey × Nat × Nat) (slot : RatchetSlot) :
    RatchetSlot :=
  if slot.devicePk = update.1 then merged update.1 (some slot) update.2 else slot

variable (slots : List RatchetSlot) (update : PhysicalDevicePk × ChainKey × Nat × Nat)

theorem updateSlot_eq :
    updateSlot slots update =
      if slots.any fun slot => slot.devicePk = update.1 then slots.map (rewriteSlot update)
      else slots ++ [merged update.1 none update.2] := by
  unfold updateSlot
  dsimp only
  split
  next =>
    refine List.map_congr_left fun slot _ => ?_
    by_cases hdevice : slot.devicePk = update.1
    · simp only [rewriteSlot, merged, hdevice, true_and, if_true]
    · simp only [rewriteSlot, hdevice, false_and, if_false]
  next => rfl

theorem devicePk_rewriteSlot
    (slot : RatchetSlot) : (rewriteSlot update slot).devicePk = slot.devicePk := by
  unfold rewriteSlot
  split
  next hdevice =>
    unfold merged
    dsimp only
    split_ifs
    · rfl
    · exact hdevice.symm
    · rfl
  next => rfl

theorem slotOf_map_rewriteSlot (senderPk : PhysicalDevicePk) :
    slotOf (slots.map (rewriteSlot update)) senderPk =
      (slotOf slots senderPk).map (rewriteSlot update) := by
  rw [slotOf, List.find?_map]
  have hsame : ((fun slot : RatchetSlot => decide (slot.devicePk = senderPk)) ∘
      rewriteSlot update) = fun slot => decide (slot.devicePk = senderPk) := by
    funext slot
    rw [Function.comp_apply, devicePk_rewriteSlot]
  rw [hsame, slotOf]

theorem slotOf_updateSlot_self (senderPk : PhysicalDevicePk)
    (entry : ChainKey × Nat × Nat) :
    slotOf (updateSlot slots (senderPk, entry)) senderPk =
      some (merged senderPk (slotOf slots senderPk) entry) := by
  rw [updateSlot_eq]
  cases hslot : slotOf slots senderPk with
  | none =>
      have hnone := List.find?_eq_none.mp hslot
      rw [if_neg (by simpa using hnone), slotOf, List.find?_append,
        List.find?_eq_none.mpr hnone]
      simp [merged]
  | some held =>
      have hdevice := devicePk_of_slotOf hslot
      have hany : (slots.any fun slot => slot.devicePk = senderPk) = true :=
        List.any_eq_true.mpr ⟨held, List.mem_of_find?_eq_some hslot, decide_eq_true hdevice⟩
      rw [if_pos hany, slotOf_map_rewriteSlot, hslot, Option.map_some, rewriteSlot,
        if_pos hdevice]

theorem slotOf_updateSlot_of_ne {senderPk : PhysicalDevicePk}
    {update : PhysicalDevicePk × ChainKey × Nat × Nat} (hne : update.1 ≠ senderPk) :
    slotOf (updateSlot slots update) senderPk = slotOf slots senderPk := by
  rw [updateSlot_eq]
  split
  next =>
    rw [slotOf_map_rewriteSlot]
    cases hslot : slotOf slots senderPk with
    | none => rfl
    | some held =>
        have hother : held.devicePk ≠ update.1 := devicePk_of_slotOf hslot ▸ hne.symm
        rw [Option.map_some, rewriteSlot, if_neg hother]
  next =>
    rw [slotOf, List.find?_append]
    simp [slotOf, merged, hne]

/-- What the entries make of the slot of a sender. -/
theorem slotOf_foldl_updateSlot (updates : RatchetUpdates) (slots : List RatchetSlot)
    (senderPk : PhysicalDevicePk) :
    slotOf (updates.entries.foldl updateSlot slots) senderPk =
      (updates.get senderPk).elim (slotOf slots senderPk) fun entry =>
        some (merged senderPk (slotOf slots senderPk) entry) :=
  @AssocMap.read_foldl_entries _ _ _ senderPk _ _ updateSlot (fun slots => slotOf slots senderPk)
    (fun slot entry => some (merged senderPk slot entry))
    (fun slots entry => slotOf_updateSlot_self slots senderPk entry)
    (fun slots _ hne => slotOf_updateSlot_of_ne slots hne) updates slots

theorem nodup_updateSlot {slots : List RatchetSlot}
    (hnodup : (slots.map RatchetSlot.devicePk).Nodup)
    (update : PhysicalDevicePk × ChainKey × Nat × Nat) :
    ((updateSlot slots update).map RatchetSlot.devicePk).Nodup := by
  rw [updateSlot_eq]
  split
  next =>
    have hsame : (slots.map (rewriteSlot update)).map RatchetSlot.devicePk =
        slots.map RatchetSlot.devicePk := by
      rw [List.map_map]
      exact List.map_congr_left fun slot _ => devicePk_rewriteSlot update slot
    rwa [hsame]
  next habsent =>
    rw [List.map_append, List.nodup_append]
    refine ⟨hnodup, List.nodup_singleton _, ?_⟩
    rintro first hfirst second hsecond rfl
    obtain ⟨slot, hmem, rfl⟩ := List.mem_map.mp hfirst
    rw [List.map_singleton, List.mem_singleton] at hsecond
    exact habsent (List.any_eq_true.mpr ⟨slot, hmem, decide_eq_true hsecond⟩)

/-- What a record says about a sender. A key belongs to the sender of the node that the
index of the journal has for it. -/
def senderEvent (volatileNodes : AssocMap NodeHash JournalNodeInfo)
    (senderPk : PhysicalDevicePk) : JournalRecord → Option RatchetEvent
  | .node _ node => if node.senderPk = senderPk then some (.noted node.seq) else none
  | .ratchetAdvance nodeHash chainKey epochId =>
      (volatileNodes.get nodeHash).bind fun info =>
        if info.senderPk = senderPk then
          some (.keyed ⟨info.sequenceNumber, chainKey, epochId⟩)
        else none
  | .promotion _ => none

def senderEvents (context : ConversationContext) (senderPk : PhysicalDevicePk) :
    List RatchetEvent :=
  context.files.journal.records.filterMap (senderEvent context.volatileNodes senderPk)

theorem get_noteUpdate (volatileNodes : AssocMap NodeHash JournalNodeInfo)
    (updates : RatchetUpdates) (senderPk : PhysicalDevicePk) (record : JournalRecord) :
    (noteUpdate volatileNodes updates record).get senderPk =
      (senderEvent volatileNodes senderPk record).elim (updates.get senderPk) fun event =>
        some (RatchetEvent.apply ((updates.get senderPk).getD (noKey, 0, 0)) event) := by
  cases record with
  | node verified node =>
      simp only [noteUpdate, senderEvent, AssocMap.get_insert]
      by_cases heq : node.senderPk = senderPk
      · rw [if_pos heq, if_pos heq.symm, heq]
        rfl
      · rw [if_neg heq, if_neg (Ne.symm heq)]
        rfl
  | ratchetAdvance nodeHash chainKey epochId =>
      simp only [noteUpdate, senderEvent]
      cases volatileNodes.get nodeHash with
      | none => rfl
      | some info =>
          dsimp only [Option.bind_some]
          rw [AssocMap.get_insert]
          by_cases heq : info.senderPk = senderPk
          · rw [if_pos heq, if_pos heq.symm]
            rfl
          · rw [if_neg heq, if_neg (Ne.symm heq)]
            rfl
  | promotion nodeHash => rfl

/-- The entry of a sender comes from the records about it alone. -/
theorem get_ratchetUpdates (context : ConversationContext) (senderPk : PhysicalDevicePk) :
    context.ratchetUpdates.get senderPk =
      if context.senderEvents senderPk = [] then none
      else some ((context.senderEvents senderPk).foldl RatchetEvent.apply (noKey, 0, 0)) := by
  unfold ratchetUpdates senderEvents
  induction context.files.journal.records using List.reverseRecOn with
  | nil => rfl
  | append_singleton front record ih =>
      rw [List.foldl_append, List.foldl_cons, List.foldl_nil, get_noteUpdate, ih,
        List.filterMap_append, List.filterMap_cons, List.filterMap_nil]
      cases senderEvent context.volatileNodes senderPk record with
      | none => simp
      | some event =>
          by_cases hempty : front.filterMap (senderEvent context.volatileNodes senderPk) = []
          · simp [hempty]
          · simp [hempty]

end ConversationContext

/-! ## Orderly journals -/

/-- The last key of the journal is the highest, no node after it exceeds it, and it lies
beyond the slot. -/
structure Advances (slot : Option RatchetSlot) (events : List RatchetEvent)
    (last : KeyWrite) : Prop where
  isKey : last.chainKey ≠ noKey
  isHighest : ∀ write ∈ keyWrites events, write.sequenceNumber ≤ last.sequenceNumber
  notOvertaken : ∀ seq ∈ sinceKey events, seq ≤ last.sequenceNumber
  beyondSlot : ∀ held ∈ slot, held.lastSequenceNumber < last.sequenceNumber

/-- The slot holds a key that the journal does not reach. -/
structure Trails (held : RatchetSlot) (events : List RatchetEvent) : Prop where
  isKey : held.chainKey ≠ noKey
  keysBelow : ∀ write ∈ keyWrites events, write.sequenceNumber < held.lastSequenceNumber
  nodesBelow : ∀ seq ∈ sinceKey events, seq ≤ held.lastSequenceNumber

/-- Without a new key no node exceeds the key of the slot; otherwise the keys go on from
the slot or stay behind it. -/
def OrderlyFor (slot : Option RatchetSlot) (events : List RatchetEvent) : Prop :=
  match (keyWrites events).getLast? with
  | none => ∀ held ∈ slot, held.chainKey ≠ noKey →
      ∀ seq ∈ sinceKey events, seq ≤ held.lastSequenceNumber
  | some last => Advances slot events last ∨ ∃ held ∈ slot, Trails held events

/-- The slot holds the highest of the keys with its own sequence number and epoch. -/
def Holds (senderPk : PhysicalDevicePk) (slot : Option RatchetSlot)
    (keys : List KeyWrite) : Prop :=
  match highest keys with
  | some write =>
      slot = some ⟨senderPk, write.chainKey, write.sequenceNumber, write.epochId⟩
  | none => ∀ held ∈ slot, held.chainKey = noKey

/-- The slot after the journal is merged into it. -/
def mergedEvents (senderPk : PhysicalDevicePk) (slot : Option RatchetSlot)
    (events : List RatchetEvent) : Option RatchetSlot :=
  if events = [] then slot
  else some (merged senderPk slot (events.foldl RatchetEvent.apply (noKey, 0, 0)))

section Merge

variable {senderPk : PhysicalDevicePk} {slot : Option RatchetSlot} {keys : List KeyWrite}
  {events : List RatchetEvent}

/-- An entry that does not exceed the slot leaves it alone. -/
theorem merged_of_le (hle : entry.2.1 ≤ held.lastSequenceNumber) :
    merged senderPk (some held) entry = held := by
  unfold merged
  exact if_neg (Nat.not_lt.mpr hle)

theorem chainKey_merged_noKey (hslot : ∀ held ∈ slot, held.chainKey = noKey) (seq epoch : Nat) :
    (merged senderPk slot (noKey, seq, epoch)).chainKey = noKey := by
  cases slot with
  | none => rfl
  | some held =>
      have hheld := hslot held rfl
      unfold merged
      dsimp only
      split_ifs
      · exact hheld
      · rfl
      · exact hheld

theorem merged_of_lt (hkey : entry.1 ≠ noKey)
    (hlt : ∀ held ∈ slot, held.lastSequenceNumber < entry.2.1) :
    merged senderPk slot entry = ⟨senderPk, entry.1, entry.2.1, entry.2.2⟩ := by
  cases slot with
  | none => rfl
  | some held =>
      unfold merged
      dsimp only
      rw [if_pos (hlt held rfl), if_neg hkey]

/-- A journal without a key of the sender. -/
theorem Holds.merge_unkeyed (h : Holds senderPk slot keys)
    (hkeys : ∀ write ∈ highest keys, write.chainKey ≠ noKey)
    (hnone : (keyWrites events).getLast? = none)
    (hbelow : ∀ held ∈ slot, held.chainKey ≠ noKey →
      ∀ seq ∈ sinceKey events, seq ≤ held.lastSequenceNumber) :
    Holds senderPk (mergedEvents senderPk slot events) keys := by
  unfold mergedEvents
  split
  next => exact h
  next =>
    rw [foldl_apply, hnone]
    dsimp only
    unfold Holds at h ⊢
    cases hhighest : highest keys with
    | none =>
        rw [hhighest] at h
        dsimp only at h ⊢
        rintro held ⟨rfl⟩
        exact chainKey_merged_noKey h _ _
    | some write =>
        rw [hhighest] at h
        dsimp only at h ⊢
        subst h
        have hbound := hbelow _ rfl (hkeys write hhighest)
        rw [merged_of_le (foldl_max_le (Nat.zero_le _) hbound)]

theorem Holds.merge_advances (h : Holds senderPk slot keys)
    (hlast : (keyWrites events).getLast? = some last) (hadvances : Advances slot events last) :
    Holds senderPk (mergedEvents senderPk slot events) (keys ++ keyWrites events) ∧
      highest (keys ++ keyWrites events) = some last := by
  obtain ⟨front, hfront⟩ := List.getLast?_eq_some_iff.mp hlast
  have hevents : events ≠ [] := by
    rintro rfl
    cases hlast
  -- Earlier keys are no higher than the slot, which the last key exceeds.
  have hbefore : ∀ other ∈ keys, other.sequenceNumber ≤ last.sequenceNumber := by
    intro other hmem
    obtain ⟨best, hbest⟩ : ∃ best, highest keys = some best := by
      refine Option.ne_none_iff_exists'.mp fun hnone => ?_
      rw [highest, List.argmax_eq_none, List.reverse_eq_nil_iff] at hnone
      exact List.not_mem_nil (hnone ▸ hmem)
    rw [Holds, hbest] at h
    exact Nat.le_trans (le_highest hbest hmem) (Nat.le_of_lt (hadvances.beyondSlot _ h))
  have hhighest : highest (keys ++ keyWrites events) = some last := by
    rw [hfront, ← List.append_assoc]
    refine highest_of_forall_le fun other hmem => ?_
    rcases List.mem_append.mp hmem with hmem | hmem
    · exact hbefore other hmem
    · exact hadvances.isHighest other (hfront ▸ List.mem_append_left _ hmem)
  refine ⟨?_, hhighest⟩
  rw [Holds, hhighest, mergedEvents, if_neg hevents, foldl_apply, hlast]
  dsimp only
  rw [foldl_max_eq_self hadvances.notOvertaken,
    merged_of_lt hadvances.isKey hadvances.beyondSlot]

theorem Holds.merge_trails (h : Holds senderPk slot keys) (hslot : slot = some held)
    (htrails : Trails held events) (hlast : (keyWrites events).getLast? = some last) :
    Holds senderPk (mergedEvents senderPk slot events) (keys ++ keyWrites events) ∧
      highest (keys ++ keyWrites events) = highest keys := by
  have hevents : events ≠ [] := by
    rintro rfl
    cases hlast
  have hbound : (sinceKey events).foldl max last.sequenceNumber ≤ held.lastSequenceNumber :=
    foldl_max_le (Nat.le_of_lt (htrails.keysBelow last (List.mem_of_getLast? hlast)))
      htrails.nodesBelow
  have hmerged : mergedEvents senderPk slot events = slot := by
    rw [mergedEvents, if_neg hevents, foldl_apply, hlast, hslot]
    exact congrArg some (merged_of_le hbound)
  have hhighest : highest (keys ++ keyWrites events) = highest keys := by
    cases hbest : highest keys with
    | none =>
        rw [Holds, hbest] at h
        exact absurd (h held hslot) htrails.isKey
    | some best =>
        rw [Holds, hbest, hslot] at h
        obtain rfl := Option.some.inj h
        exact highest_append_of_forall_lt hbest htrails.keysBelow
  refine ⟨?_, hhighest⟩
  rwa [Holds, hmerged, hhighest]

/-- An orderly journal keeps the slot at the highest key. -/
theorem Holds.merge (h : Holds senderPk slot keys)
    (hkeys : ∀ write ∈ highest keys, write.chainKey ≠ noKey)
    (horderly : OrderlyFor slot events) :
    Holds senderPk (mergedEvents senderPk slot events) (keys ++ keyWrites events) ∧
      ∀ write ∈ highest (keys ++ keyWrites events), write.chainKey ≠ noKey := by
  unfold OrderlyFor at horderly
  cases hlast : (keyWrites events).getLast? with
  | none =>
      rw [hlast] at horderly
      rw [List.getLast?_eq_none_iff.mp hlast, List.append_nil]
      exact ⟨h.merge_unkeyed hkeys hlast horderly, hkeys⟩
  | some last =>
      rw [hlast] at horderly
      rcases horderly with hadvances | ⟨held, hslot, htrails⟩
      · obtain ⟨hholds, hhighest⟩ := h.merge_advances hlast hadvances
        refine ⟨hholds, ?_⟩
        rw [hhighest]
        rintro write ⟨rfl⟩
        exact hadvances.isKey
      · obtain ⟨hholds, hhighest⟩ := h.merge_trails hslot htrails hlast
        exact ⟨hholds, hhighest ▸ hkeys⟩

/-- The number of a slot never falls. -/
theorem le_mergedEvents (hslot : slot = some held) :
    ∃ after, mergedEvents senderPk slot events = some after ∧
      held.lastSequenceNumber ≤ after.lastSequenceNumber := by
  subst hslot
  unfold mergedEvents
  split
  next => exact ⟨held, rfl, Nat.le_refl _⟩
  next =>
    refine ⟨_, rfl, ?_⟩
    unfold merged
    dsimp only
    split_ifs with hlt
    · exact Nat.le_of_lt hlt
    · exact Nat.le_of_lt hlt
    · exact Nat.le_refl _

end Merge

namespace ConversationContext

/-- The slots of a conversation after its compaction. -/
def compactedSlots (context : ConversationContext) : List RatchetSlot :=
  context.ratchetUpdates.entries.foldl updateSlot context.files.ratchet

theorem slotOf_compactedSlots (context : ConversationContext) (senderPk : PhysicalDevicePk) :
    slotOf context.compactedSlots senderPk =
      mergedEvents senderPk (slotOf context.files.ratchet senderPk)
        (context.senderEvents senderPk) := by
  rw [compactedSlots, slotOf_foldl_updateSlot, get_ratchetUpdates, mergedEvents]
  split
  next => rfl
  next => rfl

theorem nodup_compactedSlots {context : ConversationContext}
    (hnodup : (context.files.ratchet.map RatchetSlot.devicePk).Nodup) :
    (context.compactedSlots.map RatchetSlot.devicePk).Nodup := by
  unfold compactedSlots
  exact List.foldlRecOn
    (motive := fun slots : List RatchetSlot => (slots.map RatchetSlot.devicePk).Nodup) _ _
    hnodup fun _ hslots update _ => nodup_updateSlot hslots update

/-- Every key of the journal is for a node of the journal, and the records of each sender
are in order. -/
structure Orderly (context : ConversationContext) : Prop where
  forNodes : ∀ nodeHash chainKey epochId,
    .ratchetAdvance nodeHash chainKey epochId ∈ context.files.journal.records →
      (context.volatileNodes.get nodeHash).isSome = true
  forSenders : ∀ senderPk,
    OrderlyFor (slotOf context.files.ratchet senderPk) (context.senderEvents senderPk)

end ConversationContext

/-- The slots of a conversation, one for a sender, hold the highest keys. -/
structure Checkpointed (slots : List RatchetSlot)
    (keys : PhysicalDevicePk → List KeyWrite) : Prop where
  nodup : (slots.map RatchetSlot.devicePk).Nodup
  holds : ∀ senderPk, Holds senderPk (slotOf slots senderPk) (keys senderPk)

end MerkleTox.Fs
