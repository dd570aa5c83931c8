import MerkleTox.Core.Quarantine

/-! # The books of the opaque store

The tracked entries of a conversation are its opaque nodes, each once and with the size of its
wire form. A message keeps the books if its wire form unpacks to no node but the one that the
message names and, unless it unpacks now, nothing is stored under that hash and the sender has
not used up its entries.
-/

namespace MerkleTox.Core

open Library Proto

/-! ## Effects on the opaque nodes -/

section Applied

variable [Primitives]

namespace Effect

/-- The effect writes a wire form under a hash. -/
def WiresAt (effect : Effect) (nodeHash : NodeHash) : Prop :=
  ∃ conversationId wire, effect = .writeWireNode conversationId nodeHash wire

/-- The effect writes the node of a hash or deletes its wire form. -/
def Settles : Effect → NodeHash → Prop
  | .writeStore _ node _, nodeHash => nodeHash = hash node
  | .deleteWireNode _ deleted, nodeHash => nodeHash = deleted
  | _, _ => False

end Effect

namespace InMemoryStore

variable {store : InMemoryStore} {nodeHash : NodeHash}

theorem WellFormed.applyEffect (hwellFormed : store.WellFormed) (effect : Effect) :
    (store.applyEffect effect).WellFormed := by
  obtain ⟨hkeyed, hspeculative, hnodup, habsent, hunread⟩ := hwellFormed
  cases effect with
  | writeStore conversationId node verified =>
      exact WellFormed.putNode ⟨hkeyed, hspeculative, hnodup, habsent, hunread⟩ node verified
  | writeWireNode conversationId written wire =>
      exact WellFormed.putWireNode ⟨hkeyed, hspeculative, hnodup, habsent, hunread⟩
        conversationId written wire
  | deleteWireNode conversationId deleted =>
      exact WellFormed.removeWireNode ⟨hkeyed, hspeculative, hnodup, habsent, hunread⟩ deleted
  | updateHeads conversationId heads isAdmin =>
      cases isAdmin <;> exact ⟨hkeyed, hspeculative, hnodup, habsent, hunread⟩
  | _ => exact ⟨hkeyed, hspeculative, hnodup, habsent, hunread⟩

theorem WellFormed.applyEffects (hwellFormed : store.WellFormed) (effects : List Effect) :
    (store.applyEffects effects).WellFormed := by
  induction effects generalizing store with
  | nil => exact hwellFormed
  | cons effect rest ih => exact ih (hwellFormed.applyEffect effect)

/-- What an effect that writes no wire form under a hash does to the waiting there. -/
theorem applyEffect_waiting (hwellFormed : store.WellFormed) {effect : Effect}
    (hunwired : ¬ effect.WiresAt nodeHash) :
    (nodeHash ∈ (store.applyEffect effect).opaqueNodes ↔
      nodeHash ∈ store.opaqueNodes ∧ ¬ effect.Settles nodeHash) ∧
      (¬ effect.Settles nodeHash → (store.applyEffect effect).wireNodes.get nodeHash =
        store.wireNodes.get nodeHash) := by
  cases effect with
  | writeStore conversationId node verified =>
      simp only [applyEffect, opaqueNodes_putNode, wireNodes_putNode, Effect.Settles,
        hwellFormed.opaqueNodup.mem_erase_iff]
      exact ⟨and_comm, fun _ => trivial⟩
  | writeWireNode conversationId written wire =>
      have hne : nodeHash ≠ written := fun heq => hunwired ⟨conversationId, wire, by rw [heq]⟩
      refine ⟨?_, fun _ => AssocMap.get_insert_of_ne _ _ hne⟩
      simp only [applyEffect, putWireNode, Effect.Settles, not_false_eq_true, and_true]
      split
      · exact Iff.rfl
      · rw [mem_insertOnce, or_iff_left hne]
  | deleteWireNode conversationId deleted =>
      simp only [applyEffect, removeWireNode, Effect.Settles,
        hwellFormed.opaqueNodup.mem_erase_iff]
      exact ⟨and_comm, fun hne => AssocMap.get_erase_of_ne _ hne⟩
  | updateHeads conversationId heads isAdmin =>
      cases isAdmin <;> simp [applyEffect, Effect.Settles]
  | _ => simp [applyEffect, Effect.Settles]

variable {effects : List Effect}

theorem applyEffects_waiting (hwellFormed : store.WellFormed)
    (hunwired : ∀ effect ∈ effects, ¬ effect.WiresAt nodeHash) :
    (nodeHash ∈ (store.applyEffects effects).opaqueNodes ↔
      nodeHash ∈ store.opaqueNodes ∧ ∀ effect ∈ effects, ¬ effect.Settles nodeHash) ∧
      ((∀ effect ∈ effects, ¬ effect.Settles nodeHash) →
        (store.applyEffects effects).wireNodes.get nodeHash = store.wireNodes.get nodeHash) := by
  induction effects generalizing store with
  | nil =>
      refine ⟨⟨fun hmem => ⟨hmem, fun _ hnone => absurd hnone List.not_mem_nil⟩, And.left⟩, ?_⟩
      exact fun _ => rfl
  | cons effect rest ih =>
      obtain ⟨hfirst, hwire⟩ := applyEffect_waiting hwellFormed
        (hunwired effect List.mem_cons_self)
      obtain ⟨hrest, hwires⟩ := ih (hwellFormed.applyEffect effect)
        fun other hmem => hunwired other (List.mem_cons_of_mem _ hmem)
      have hcons : store.applyEffects (effect :: rest) =
          (store.applyEffect effect).applyEffects rest := rfl
      rw [hcons, List.forall_mem_cons, hrest, hfirst, and_assoc]
      exact ⟨Iff.rfl, fun hsettles => (hwires hsettles.2).trans (hwire hsettles.1)⟩

theorem hasNode_putNode (store : InMemoryStore) (node : MerkleNode) (verified : Bool)
    (nodeHash : NodeHash) : (store.putNode node verified).hasNode nodeHash =
      (decide (nodeHash = hash node) || store.hasNode nodeHash) := by
  rw [hasNode_eq, getNode_putNode, hasNode_eq]
  split
  next heq => simp [heq]
  next hne => simp [hne]

theorem hasNode_applyEffect {effect : Effect} (hhas : store.hasNode nodeHash = true) :
    (store.applyEffect effect).hasNode nodeHash = true := by
  cases effect with
  | writeStore conversationId node verified =>
      rw [applyEffect, hasNode_putNode, hhas, Bool.or_true]
  | updateHeads conversationId heads isAdmin => cases isAdmin <;> exact hhas
  | _ => exact hhas

theorem hasNode_applyEffects (effects : List Effect) (hhas : store.hasNode nodeHash = true) :
    (store.applyEffects effects).hasNode nodeHash = true := by
  induction effects generalizing store with
  | nil => exact hhas
  | cons effect rest ih => exact ih (hasNode_applyEffect hhas)

/-- A node that is written is stored. -/
theorem hasNode_of_written {conversationId : ConversationId} {node : MerkleNode} {verified : Bool}
    (hmem : .writeStore conversationId node verified ∈ effects) :
    (store.applyEffects effects).hasNode (hash node) = true := by
  obtain ⟨first, rest, rfl⟩ := List.append_of_mem hmem
  rw [applyEffects_append]
  refine hasNode_applyEffects rest ?_
  rw [applyEffect, hasNode_putNode, decide_eq_true rfl, Bool.true_or]

/-- A wire form in the store was there before, or was written. -/
theorem applyEffects_wire {held : ConversationId × WireNode}
    (hget : (store.applyEffects effects).wireNodes.get nodeHash = some held) :
    store.wireNodes.get nodeHash = some held ∨
      .writeWireNode held.1 nodeHash held.2 ∈ effects := by
  induction effects generalizing store with
  | nil => exact .inl hget
  | cons effect rest ih =>
      rcases ih hget with hget | hmem
      · cases effect with
        | writeStore conversationId node verified =>
            rw [applyEffect, wireNodes_putNode] at hget
            exact .inl hget
        | writeWireNode conversationId written wire =>
            simp only [applyEffect, putWireNode, AssocMap.get_insert] at hget
            split at hget
            next heq =>
              cases hget
              rw [heq]
              exact .inr List.mem_cons_self
            next => exact .inl hget
        | deleteWireNode conversationId deleted =>
            by_cases heq : nodeHash = deleted
            · rw [heq] at hget
              cases (AssocMap.get_erase_self _ _).symm.trans hget
            · exact .inl ((AssocMap.get_erase_of_ne _ heq).symm.trans hget)
        | updateHeads conversationId heads isAdmin => cases isAdmin <;> exact .inl hget
        | _ => exact .inl hget
      · exact .inr (List.mem_cons_of_mem _ hmem)

end InMemoryStore

end Applied

/-! ## The store after a call -/

section Finished

variable [Primitives]

/-- Of the opaque nodes of a store those that pass a test are left, with their wire forms. -/
structure InMemoryStore.Retains (start final : InMemoryStore) (keep : NodeHash → Prop) :
    Prop where
  waiting : ∀ nodeHash, nodeHash ∈ final.opaqueNodes ↔
    nodeHash ∈ start.opaqueNodes ∧ keep nodeHash
  wires : ∀ nodeHash ∈ final.opaqueNodes,
    final.wireNodes.get nodeHash = start.wireNodes.get nodeHash

omit [Primitives] in
theorem InMemoryStore.Retains.congr {start final : InMemoryStore} {keep keep' : NodeHash → Prop}
    (hretains : start.Retains final keep) (hkeep : ∀ nodeHash, keep nodeHash ↔ keep' nodeHash) :
    start.Retains final keep' :=
  ⟨fun nodeHash => by rw [hretains.waiting, hkeep], hretains.wires⟩

variable [WireCodec] {exempt : NodeHash → Prop} {selfPk : PhysicalDevicePk}
variable {start store : InMemoryStore} {conversationId : ConversationId} {effects : List Effect}

/-- When its effects are applied, a call has taken out the opaque nodes that it reports, and
those that are exempt. The exempt ones are stored by then; their wire forms may be written
first. -/
theorem Withdraws.applyEffects
    (hcall : Withdraws exempt selfPk start conversationId effects store) {first : List Effect}
    (hfirst : ∀ effect ∈ first, ∃ written nodeHash wire,
      effect = .writeWireNode written nodeHash wire ∧ exempt nodeHash ∧ Genuine nodeHash wire)
    (hexempt : ∀ nodeHash, exempt nodeHash →
      (store.applyEffects (first ++ effects)).hasNode nodeHash = true) :
    (store.applyEffects (first ++ effects)).Sealed selfPk ∧
      start.Retains (store.applyEffects (first ++ effects)) fun nodeHash =>
        ¬ exempt nodeHash ∧ .deleteWireNode conversationId nodeHash ∉ effects := by
  have hwellFormed := hcall.sealed.wellFormed.applyEffects (first ++ effects)
  have hunexempt : ∀ nodeHash ∈ (store.applyEffects (first ++ effects)).opaqueNodes,
      ¬ exempt nodeHash := by
    intro nodeHash hmem hex
    exact nomatch (hwellFormed.opaqueAbsent _ hmem).symm.trans (hexempt nodeHash hex)
  -- A wire form that is written belongs to an exempt node or to an own one.
  have hwired : ∀ effect ∈ first ++ effects, ∀ nodeHash, effect.WiresAt nodeHash →
      exempt nodeHash ∨ (Owns selfPk nodeHash ∧
        (store.applyEffects (first ++ effects)).hasNode nodeHash = true) := by
    rintro effect hmem nodeHash ⟨written, wire, rfl⟩
    rcases List.mem_append.mp hmem with hmem | hmem
    · obtain ⟨_, _, _, heq, hex, -⟩ := hfirst _ hmem
      cases heq
      exact .inl hex
    · obtain ⟨node, hstored, rfl⟩ := hcall.paired _ _ _ hmem
      exact .inr ⟨hcall.wired _ _ _ hmem,
        InMemoryStore.hasNode_of_written (List.mem_append_right _ hstored)⟩
  have hunsettled : ∀ nodeHash ∈ store.opaqueNodes, ¬ exempt nodeHash →
      ∀ effect ∈ first ++ effects, ¬ effect.Settles nodeHash := by
    intro nodeHash hunread hunexempt effect hmem hsettles
    rcases List.mem_append.mp hmem with hmem | hmem
    · obtain ⟨_, _, _, rfl, -⟩ := hfirst _ hmem
      exact hsettles
    · cases effect with
      | writeStore written node verified =>
          obtain rfl : nodeHash = hash node := hsettles
          exact hcall.writes written node verified hmem ⟨hunread, hunexempt⟩
      | deleteWireNode written deleted =>
          obtain rfl : nodeHash = deleted := hsettles
          obtain rfl := hcall.deletes _ _ hmem
          exact ((hcall.waiting _).mp hunread).2 hmem
      | _ => exact hsettles
  have hretains : ∀ nodeHash,
      (nodeHash ∈ (store.applyEffects (first ++ effects)).opaqueNodes ↔
        nodeHash ∈ store.opaqueNodes ∧ ¬ exempt nodeHash) ∧
      (nodeHash ∈ store.opaqueNodes → ¬ exempt nodeHash →
        (store.applyEffects (first ++ effects)).wireNodes.get nodeHash =
          store.wireNodes.get nodeHash) := by
    intro nodeHash
    by_cases hwrites : ∃ effect ∈ first ++ effects, effect.WiresAt nodeHash
    · obtain ⟨effect, hmem, hwires⟩ := hwrites
      rcases hwired effect hmem nodeHash hwires with hex | ⟨howns, hhas⟩
      · refine ⟨⟨fun hunread => absurd hex (hunexempt _ hunread), fun h => absurd hex h.2⟩, ?_⟩
        exact fun _ hunexempt => absurd hex hunexempt
      · have habsent : nodeHash ∉ store.opaqueNodes :=
          fun hunread => hcall.sealed.foreign _ hunread howns
        refine ⟨⟨fun hunread => ?_, fun h => absurd h.1 habsent⟩, fun h => absurd h habsent⟩
        exact nomatch (hwellFormed.opaqueAbsent _ hunread).symm.trans hhas
    · push Not at hwrites
      obtain ⟨hiff, hget⟩ := InMemoryStore.applyEffects_waiting hcall.sealed.wellFormed hwrites
      refine ⟨⟨fun hunread => ⟨(hiff.mp hunread).1, hunexempt _ hunread⟩, fun h => ?_⟩,
        fun hunread hex => hget (hunsettled nodeHash hunread hex)⟩
      exact hiff.mpr ⟨h.1, hunsettled nodeHash h.1 h.2⟩
  refine ⟨⟨hwellFormed, fun nodeHash hmem => ?_, fun nodeHash held hget => ?_⟩,
    ⟨fun nodeHash => ?_, fun nodeHash hmem => ?_⟩⟩
  · exact hcall.sealed.foreign _ ((hretains nodeHash).1.mp hmem).1
  · rcases InMemoryStore.applyEffects_wire hget with hget | hmem
    · exact hcall.sealed.wires nodeHash held hget
    · rcases List.mem_append.mp hmem with hmem | hmem
      · obtain ⟨_, _, _, heq, -, hgenuine⟩ := hfirst _ hmem
        cases heq
        exact .inl hgenuine
      · exact .inr (hcall.wired _ _ _ hmem)
  · rw [(hretains nodeHash).1, hcall.waiting, and_assoc, and_comm (b := ¬ exempt nodeHash)]
  · obtain ⟨hunread, hex⟩ := (hretains nodeHash).1.mp hmem
    rw [(hretains nodeHash).2 hunread hex]
    exact hcall.wires nodeHash ((hcall.waiting nodeHash).mp hunread).2

end Finished

/-! ## The ledger after a call -/

/-- A ledger whose entries have different hashes and whose total is the sum of their sizes. -/
structure InOrder (ledger : Ledger OpaqueEntry) : Prop where
  distinct : (ledger.entries.map OpaqueEntry.hash).Nodup
  balanced : ledger.Balanced OpaqueEntry.size

theorem InOrder.empty : InOrder .empty := ⟨List.nodup_nil, .empty⟩

/-- Of the entries of a ledger in order those that pass a test are left. -/
structure Shrinks (ledger shrunk : Ledger OpaqueEntry) (keep : NodeHash → Prop) : Prop where
  inOrder : InOrder shrunk
  entries : ∀ entry, entry ∈ shrunk.entries ↔ entry ∈ ledger.entries ∧ keep entry.hash
  total : shrunk.total ≤ ledger.total

variable {ledger shrunk : Ledger OpaqueEntry} {keep keep' : NodeHash → Prop}

theorem Shrinks.refl (hinOrder : InOrder ledger) (hkeep : ∀ nodeHash, keep nodeHash) :
    Shrinks ledger ledger keep :=
  ⟨hinOrder, fun _ => (and_iff_left (hkeep _)).symm, Nat.le_refl _⟩

theorem Shrinks.remove (hshrinks : Shrinks ledger shrunk keep) (nodeHash : NodeHash)
    (hkeep : ∀ other, keep' other ↔ keep other ∧ other ≠ nodeHash) :
    Shrinks ledger (shrunk.remove OpaqueEntry.size fun entry => entry.hash = nodeHash) keep' where
  inOrder := ⟨Ledger.nodup_remove hshrinks.inOrder.distinct _,
    hshrinks.inOrder.balanced.remove _⟩
  entries entry := by
    rw [Ledger.mem_remove hshrinks.inOrder.distinct, hshrinks.entries, hkeep, and_assoc]
  total := (Ledger.remove_total_le _ _).trans hshrinks.total

namespace OpaqueUsage

variable {usage : OpaqueUsage} {conversationId other : ConversationId}

theorem of_untrack (usage : OpaqueUsage) (conversationId : ConversationId) (nodeHash : NodeHash) :
    (usage.untrack conversationId nodeHash).of conversationId =
      (usage.of conversationId).remove OpaqueEntry.size fun entry => entry.hash = nodeHash := by
  unfold of untrack
  rw [AssocMap.get_modify_self]
  cases usage.get conversationId <;> rfl

theorem of_untrack_of_ne (hne : other ≠ conversationId) (nodeHash : NodeHash) :
    (usage.untrack conversationId nodeHash).of other = usage.of other := by
  unfold of untrack
  rw [AssocMap.get_modify_of_ne _ _ hne]

variable {effects : List Effect}

/-- Effects of one conversation leave the ledgers of the others alone. -/
theorem of_promote_of_ne (hne : other ≠ conversationId)
    (hdeletes : ∀ written nodeHash, .deleteWireNode written nodeHash ∈ effects →
      written = conversationId) : (usage.promote effects).of other = usage.of other := by
  induction effects generalizing usage with
  | nil => rfl
  | cons effect rest ih =>
      have hrest := fun written nodeHash hmem =>
        hdeletes written nodeHash (List.mem_cons_of_mem _ hmem)
      cases effect with
      | deleteWireNode written nodeHash =>
          obtain rfl := hdeletes written nodeHash List.mem_cons_self
          exact (ih hrest).trans (of_untrack_of_ne hne nodeHash)
      | _ => exact ih hrest

/-- A call takes the entries out whose wire forms it deletes. -/
theorem shrinks_promote (hshrinks : Shrinks ledger (usage.of conversationId) keep)
    (hdeletes : ∀ written nodeHash, .deleteWireNode written nodeHash ∈ effects →
      written = conversationId) :
    Shrinks ledger ((usage.promote effects).of conversationId) fun nodeHash =>
      keep nodeHash ∧ .deleteWireNode conversationId nodeHash ∉ effects := by
  induction effects generalizing usage keep with
  | nil => simpa [promote] using hshrinks
  | cons effect rest ih =>
      have hrest := fun written nodeHash hmem =>
        hdeletes written nodeHash (List.mem_cons_of_mem _ hmem)
      cases effect with
      | deleteWireNode written deleted =>
          obtain rfl := hdeletes written deleted List.mem_cons_self
          have hremoved : Shrinks ledger ((usage.untrack written deleted).of written)
              fun nodeHash => keep nodeHash ∧ nodeHash ≠ deleted := by
            rw [of_untrack]
            exact hshrinks.remove deleted fun _ => Iff.rfl
          simpa [promote, and_assoc] using ih hremoved hrest
      | _ => simpa [promote] using ih hshrinks hrest

end OpaqueUsage

/-! ## Books -/

/-- The entries of a ledger are the opaque nodes of a store, with the sizes of their wire forms. -/
structure Tracks (ledger : Ledger OpaqueEntry) (store : InMemoryStore) : Prop where
  inOrder : InOrder ledger
  waiting : ∀ nodeHash, nodeHash ∈ ledger.entries.map OpaqueEntry.hash ↔
    nodeHash ∈ store.opaqueNodes
  sized : ∀ entry ∈ ledger.entries,
    (store.wireNodes.get entry.hash).map (fun held => held.2.wireSize) = some entry.size

theorem Tracks.new : Tracks .empty .new :=
  ⟨.empty, fun _ => Iff.rfl, fun _ hmem => absurd hmem List.not_mem_nil⟩

/-- The ledger and the store lose the same. -/
theorem Tracks.retain {start final : InMemoryStore} (htracks : Tracks ledger start)
    (hshrinks : Shrinks ledger shrunk keep) (hretains : start.Retains final keep) :
    Tracks shrunk final where
  inOrder := hshrinks.inOrder
  waiting nodeHash := by
    rw [hretains.waiting, ← htracks.waiting, List.mem_map, List.mem_map]
    constructor
    · rintro ⟨entry, hmem, rfl⟩
      obtain ⟨hentry, hkeep⟩ := (hshrinks.entries entry).mp hmem
      exact ⟨⟨entry, hentry, rfl⟩, hkeep⟩
    · rintro ⟨⟨entry, hentry, rfl⟩, hkeep⟩
      exact ⟨entry, (hshrinks.entries entry).mpr ⟨hentry, hkeep⟩, rfl⟩
  sized entry hmem := by
    obtain ⟨hentry, hkeep⟩ := (hshrinks.entries entry).mp hmem
    have hwaits : entry.hash ∈ start.opaqueNodes :=
      (htracks.waiting _).mp (List.mem_map_of_mem hentry)
    rw [hretains.wires _ ((hretains.waiting _).mpr ⟨hwaits, hkeep⟩)]
    exact htracks.sized entry hentry

namespace InMemoryStore

/-- The size of the wire form that is stored under a hash. -/
def wireSizeAt (store : InMemoryStore) (nodeHash : NodeHash) : Nat :=
  ((store.wireNodes.get nodeHash).map fun held => held.2.wireSize).getD 0

end InMemoryStore

section Hoarded

variable [Primitives] {store : InMemoryStore} {entry : OpaqueEntry} {wire : WireNode}
variable {conversationId : ConversationId}

omit [Primitives] in
/-- A wire form under a hash that is new to the store is tracked. -/
theorem Tracks.push (htracks : Tracks ledger store) (hunread : entry.hash ∉ store.opaqueNodes)
    (habsent : store.hasNode entry.hash = false) (hsize : entry.size = wire.wireSize) :
    Tracks (ledger.push OpaqueEntry.size entry)
      (store.putWireNode conversationId entry.hash wire) where
  inOrder := by
    refine ⟨?_, htracks.inOrder.balanced.push entry⟩
    rw [Ledger.push, List.map_append, List.nodup_append]
    refine ⟨htracks.inOrder.distinct, List.nodup_singleton _, ?_⟩
    rintro first hfirst second hsecond rfl
    rw [List.map_singleton, List.mem_singleton] at hsecond
    exact hunread (hsecond ▸ (htracks.waiting first).mp hfirst)
  waiting nodeHash := by
    have hstored : (store.putWireNode conversationId entry.hash wire).opaqueNodes =
        insertOnce store.opaqueNodes entry.hash := if_neg (by rw [habsent]; decide)
    rw [hstored, mem_insertOnce, Ledger.push, List.map_append, List.mem_append, htracks.waiting,
      List.map_singleton, List.mem_singleton]
  sized other hmem := by
    have hwires : (store.putWireNode conversationId entry.hash wire).wireNodes =
        store.wireNodes.insert entry.hash (conversationId, wire) := rfl
    rw [hwires, AssocMap.get_insert]
    rcases List.mem_append.mp hmem with hmem | hmem
    · have hne : other.hash ≠ entry.hash := fun heq =>
        hunread (heq ▸ (htracks.waiting _).mp (List.mem_map_of_mem hmem))
      rw [if_neg hne]
      exact htracks.sized other hmem
    · rw [List.mem_singleton.mp hmem, if_pos rfl, hsize]
      rfl

/-- Effects that delete wire forms take these out, and nothing else. -/
theorem InMemoryStore.retains_deletes (hwellFormed : store.WellFormed)
    (conversationId : ConversationId) (deleted : List NodeHash) :
    store.Retains (store.applyEffects (deleted.map (.deleteWireNode conversationId)))
      (· ∉ deleted) := by
  have hunwired : ∀ nodeHash, ∀ effect ∈ deleted.map (Effect.deleteWireNode conversationId),
      ¬ effect.WiresAt nodeHash := by
    rintro nodeHash effect hmem ⟨_, _, rfl⟩
    obtain ⟨_, -, heq⟩ := List.mem_map.mp hmem
    cases heq
  have hwaiting := fun nodeHash => applyEffects_waiting hwellFormed (hunwired nodeHash)
  have hsettles : ∀ nodeHash,
      (∀ effect ∈ deleted.map (Effect.deleteWireNode conversationId), ¬ effect.Settles nodeHash) ↔
        nodeHash ∉ deleted := by
    intro nodeHash
    rw [List.forall_mem_map]
    exact ⟨fun hnone hmem => hnone nodeHash hmem rfl, fun habsent other hmem heq =>
      habsent (Eq.symm heq ▸ hmem)⟩
  refine ⟨fun nodeHash => ?_, fun nodeHash hmem => ?_⟩
  · rw [(hwaiting nodeHash).1, hsettles]
  · exact (hwaiting nodeHash).2 ((hwaiting nodeHash).1.mp hmem).2

variable {selfPk : PhysicalDevicePk}

theorem InMemoryStore.Sealed.deletes [WireCodec] (hsealed : store.Sealed selfPk)
    (conversationId : ConversationId) (deleted : List NodeHash) :
    (store.applyEffects (deleted.map (.deleteWireNode conversationId))).Sealed selfPk := by
  induction deleted generalizing store with
  | nil => exact hsealed
  | cons first rest ih => exact ih (hsealed.removeWireNode first)

theorem InMemoryStore.Sealed.putWireNode [WireCodec] (hsealed : store.Sealed selfPk)
    (conversationId : ConversationId) {nodeHash : NodeHash} (hgenuine : Genuine nodeHash wire)
    (hforeign : ¬ Owns selfPk nodeHash) :
    (store.putWireNode conversationId nodeHash wire).Sealed selfPk where
  wellFormed := hsealed.wellFormed.putWireNode conversationId nodeHash wire
  foreign other hmem := by
    by_cases heq : other = nodeHash
    · exact heq ▸ hforeign
    · refine hsealed.foreign other ?_
      unfold InMemoryStore.putWireNode at hmem
      simp only at hmem
      split at hmem
      · exact hmem
      · exact (mem_insertOnce.mp hmem).resolve_right heq
  wires other held hget := by
    simp only [InMemoryStore.putWireNode, AssocMap.get_insert] at hget
    split at hget
    next heq =>
      cases hget
      exact .inl (heq ▸ hgenuine)
    next => exact hsealed.wires other held hget

omit [Primitives] in
/-- What is evicted are entries of the ledger, and the others stay. -/
theorem shrinks_evictOpaque (hinOrder : InOrder ledger) (store : InMemoryStore)
    (conversationId : ConversationId) (locked : List NodeHash) :
    Shrinks ledger (evictOpaque store conversationId locked ledger).2
      (· ∉ (evictOpaque store conversationId locked ledger).1.map OpaqueEntry.hash) := by
  have hperm : ((evictOpaque store conversationId locked ledger).1 ++
      (evictOpaque store conversationId locked ledger).2.entries).Perm ledger.entries :=
    Ledger.evict_perm _ ledger
  have hbalanced : (evictOpaque store conversationId locked ledger).2.Balanced OpaqueEntry.size :=
    hinOrder.balanced.evict _
  have hnodup := (hperm.map OpaqueEntry.hash).nodup_iff.mpr hinOrder.distinct
  rw [List.map_append, List.nodup_append] at hnodup
  obtain ⟨-, hkept, hapart⟩ := hnodup
  refine ⟨⟨hkept, hbalanced⟩, fun entry => ?_, ?_⟩
  · rw [← hperm.mem_iff, List.mem_append]
    constructor
    · exact fun hmem => ⟨.inr hmem, fun hevicted =>
        hapart _ hevicted _ (List.mem_map_of_mem hmem) rfl⟩
    · rintro ⟨hevicted | hmem, hstays⟩
      · exact absurd (List.mem_map_of_mem hevicted) hstays
      · exact hmem
  · have hsum := (hperm.map OpaqueEntry.size).sum_nat
    rw [List.map_append, List.sum_append] at hsum
    rw [hbalanced, hinOrder.balanced, ← hsum]
    exact Nat.le_add_left _ _

omit [Primitives] in
/-- With nothing locked the quota is kept. -/
theorem within_evictOpaque (hinOrder : InOrder ledger) (store : InMemoryStore)
    (conversationId : ConversationId) :
    (evictOpaque store conversationId [] ledger).2.total ≤ opaqueStoreQuota := by
  rcases evictOpaque_done store conversationId [] ledger with hwithin | hlocked
  · exact hwithin
  · have hbalanced := (shrinks_evictOpaque hinOrder store conversationId []).inOrder.balanced
    have hnone : (evictOpaque store conversationId [] ledger).2.entries = [] :=
      List.eq_nil_iff_forall_not_mem.mpr fun entry hmem => nomatch hlocked entry hmem
    rw [hbalanced, hnone]
    exact Nat.zero_le _

end Hoarded

/-- The recorded total is that of the opaque wire forms in the store. -/
theorem Tracks.total_eq {store : InMemoryStore} [Primitives] (htracks : Tracks ledger store)
    (hnodup : store.opaqueNodes.Nodup) :
    (ledger.entries.map OpaqueEntry.hash).Perm store.opaqueNodes ∧
      ledger.total = (store.opaqueNodes.map store.wireSizeAt).sum := by
  have hperm : (ledger.entries.map OpaqueEntry.hash).Perm store.opaqueNodes :=
    (List.perm_ext_iff_of_nodup htracks.inOrder.distinct hnodup).mpr htracks.waiting
  refine ⟨hperm, ?_⟩
  calc ledger.total = (ledger.entries.map OpaqueEntry.size).sum := htracks.inOrder.balanced
    _ = (ledger.entries.map fun entry => store.wireSizeAt entry.hash).sum := by
        refine congrArg List.sum (List.map_congr_left fun entry hmem => ?_)
        rw [InMemoryStore.wireSizeAt, htracks.sized entry hmem]
        rfl
    _ = ((ledger.entries.map OpaqueEntry.hash).map store.wireSizeAt).sum := by
        rw [List.map_map]
        rfl
    _ = (store.opaqueNodes.map store.wireSizeAt).sum := (hperm.map _).sum_nat

namespace TrackedEngine

/-- What holds of the books of a conversation: the tracked hashes are distinct and are those of
the opaque nodes that are stored, and the total is that of their wire forms and within the
quota. Of what a message evicts nothing is locked, and when the loop ends the quota is kept or
all that is left is locked. -/
structure KeepsBooks (tracked : TrackedEngine) (conversationId : ConversationId) : Prop where
  distinct : ((tracked.opaqueStoreUsage.of conversationId).entries.map OpaqueEntry.hash).Nodup
  persisted : ((tracked.opaqueStoreUsage.of conversationId).entries.map OpaqueEntry.hash).Perm
    (tracked.stores conversationId).opaqueNodes
  recorded : (tracked.opaqueStoreUsage.of conversationId).total =
    ((tracked.stores conversationId).opaqueNodes.map
      (tracked.stores conversationId).wireSizeAt).sum
  within : (tracked.opaqueStoreUsage.of conversationId).total ≤ opaqueStoreQuota
  unlocked : ∀ locked entry, ∀ evicted ∈ (evictOpaque (tracked.stores conversationId)
    conversationId locked (tracked.opaqueStoreUsage.track conversationId entry)).1,
    locked.contains evicted.hash = false
  ends : ∀ locked entry, (evictOpaque (tracked.stores conversationId) conversationId locked
      (tracked.opaqueStoreUsage.track conversationId entry)).2.total ≤ opaqueStoreQuota ∨
    ∀ kept ∈ (evictOpaque (tracked.stores conversationId) conversationId locked
      (tracked.opaqueStoreUsage.track conversationId entry)).2.entries,
      locked.contains kept.hash = true

variable [Primitives] [WireCodec]

/-- The invariant of runs. -/
structure Kept (tracked : TrackedEngine) : Prop where
  own : tracked.engine.AuthorsOwn
  sealed : ∀ conversationId, (tracked.stores conversationId).Sealed tracked.engine.selfPk
  tracks : ∀ conversationId, Tracks (tracked.opaqueStoreUsage.of conversationId)
    (tracked.stores conversationId)
  within : ∀ conversationId,
    (tracked.opaqueStoreUsage.of conversationId).total ≤ opaqueStoreQuota
  unlocked : tracked.promotionLocked = []

theorem Kept.new {engine : Engine} (hown : engine.AuthorsOwn) : (new engine).Kept where
  own := hown
  sealed _ := ⟨.new, fun _ hmem => absurd hmem List.not_mem_nil, fun _ _ hget => nomatch hget⟩
  tracks _ := .new
  within _ := Nat.zero_le _
  unlocked := rfl

variable {tracked next : TrackedEngine} {conversationId : ConversationId}

theorem Kept.keepsBooks (hkept : tracked.Kept) (conversationId : ConversationId) :
    tracked.KeepsBooks conversationId where
  distinct := (hkept.tracks conversationId).inOrder.distinct
  persisted := ((hkept.tracks conversationId).total_eq
    (hkept.sealed conversationId).wellFormed.opaqueNodup).1
  recorded := ((hkept.tracks conversationId).total_eq
    (hkept.sealed conversationId).wellFormed.opaqueNodup).2
  within := hkept.within conversationId
  unlocked locked _ := evictOpaque_unlocked _ conversationId locked _
  ends locked _ := evictOpaque_done _ conversationId locked _

/-- A call that concerns one conversation. -/
structure Touches (tracked next : TrackedEngine) (conversationId : ConversationId) : Prop where
  self : next.engine.selfPk = tracked.engine.selfPk
  own : next.engine.AuthorsOwn
  others : ∀ other ≠ conversationId, next.stores other = tracked.stores other ∧
    next.opaqueStoreUsage.of other = tracked.opaqueStoreUsage.of other
  unlocked : next.promotionLocked = tracked.promotionLocked

theorem Kept.of_touches (hkept : tracked.Kept) (htouches : tracked.Touches next conversationId)
    (hsealed : (next.stores conversationId).Sealed tracked.engine.selfPk)
    (htracks : Tracks (next.opaqueStoreUsage.of conversationId) (next.stores conversationId))
    (hwithin : (next.opaqueStoreUsage.of conversationId).total ≤ opaqueStoreQuota) :
    next.Kept where
  own := htouches.own
  sealed other := by
    rw [htouches.self]
    by_cases heq : other = conversationId
    · exact heq ▸ hsealed
    · rw [(htouches.others other heq).1]
      exact hkept.sealed other
  tracks other := by
    by_cases heq : other = conversationId
    · exact heq ▸ htracks
    · rw [(htouches.others other heq).1, (htouches.others other heq).2]
      exact hkept.tracks other
  within other := by
    by_cases heq : other = conversationId
    · exact heq ▸ hwithin
    · rw [(htouches.others other heq).2]
      exact hkept.within other
  unlocked := htouches.unlocked.trans hkept.unlocked

/-! ## Calls -/

variable {world : World} {result : Except MerkleToxError (List Effect)}
variable {exempt : NodeHash → Prop} {first effects : List Effect}

omit [WireCodec] in
theorem finish_engine (world : World) (result : Except MerkleToxError (List Effect)) :
    (world.finish result).engine.selfPk = world.engine.selfPk ∧
      (world.finish result).engine.authored = world.engine.authored := by
  cases result <;> exact ⟨rfl, rfl⟩

section

variable (tracked : TrackedEngine) (conversationId : ConversationId) (result : Except MerkleToxError
  (List Effect))

omit [WireCodec] in
theorem touches_absorb (hself : world.engine.selfPk = tracked.engine.selfPk)
    (hown : world.engine.AuthorsOwn) :
    tracked.Touches (tracked.absorb conversationId result world) conversationId where
  self := (finish_engine world result).1.trans hself
  own := by
    obtain ⟨hfinished, hauthored⟩ := finish_engine world result
    intro entry hmem
    exact (hown entry (hauthored ▸ hmem)).trans hfinished.symm
  others other hne := ⟨Function.update_of_ne hne _ _, rfl⟩
  unlocked := rfl

omit [WireCodec] in
theorem stores_absorb (world : World) :
    (tracked.absorb conversationId result world).stores conversationId =
      world.store.applyEffects (returnedEffects result) :=
  (Function.update_self _ _ _).trans (world.finish_eq result).2.1

end

omit [Primitives] [WireCodec] in
theorem Touches.withUsage (htouches : tracked.Touches next conversationId) {usage : OpaqueUsage}
    (hothers : ∀ other ≠ conversationId, usage.of other = tracked.opaqueStoreUsage.of other) :
    tracked.Touches { next with opaqueStoreUsage := usage } conversationId :=
  ⟨htouches.self, htouches.own, fun other hne => ⟨(htouches.others other hne).1, hothers other hne⟩,
    htouches.unlocked⟩

/-- A call that may have re-verified opaque nodes takes the same entries out of the store and
out of the ledger, but for those that are exempt. -/
theorem Kept.settle (hkept : tracked.Kept)
    (hcall : Withdraws exempt tracked.engine.selfPk (tracked.stores conversationId)
      conversationId effects world.store)
    (hself : world.engine.selfPk = tracked.engine.selfPk) (hown : world.engine.AuthorsOwn)
    (hreturned : returnedEffects result = first ++ effects)
    (hfirst : ∀ effect ∈ first, ∃ written nodeHash wire,
      effect = .writeWireNode written nodeHash wire ∧ exempt nodeHash ∧ Genuine nodeHash wire)
    (hexempt : ∀ nodeHash, exempt nodeHash →
      (world.store.applyEffects (first ++ effects)).hasNode nodeHash = true) :
    tracked.Touches (tracked.settle conversationId result world) conversationId ∧
      ((tracked.settle conversationId result world).stores conversationId).Sealed
        tracked.engine.selfPk ∧
      (tracked.stores conversationId).Retains
        ((tracked.settle conversationId result world).stores conversationId) (fun nodeHash =>
          ¬ exempt nodeHash ∧ .deleteWireNode conversationId nodeHash ∉ effects) ∧
      Shrinks (tracked.opaqueStoreUsage.of conversationId)
        ((tracked.settle conversationId result world).opaqueStoreUsage.of conversationId)
        fun nodeHash => .deleteWireNode conversationId nodeHash ∉ effects := by
  have hdeleted : ∀ written nodeHash,
      .deleteWireNode written nodeHash ∈ returnedEffects result ↔
        .deleteWireNode written nodeHash ∈ effects := by
    intro written nodeHash
    rw [hreturned, List.mem_append, or_iff_right]
    intro hmem
    obtain ⟨_, _, _, heq, -⟩ := hfirst _ hmem
    cases heq
  have hdeletes : ∀ written nodeHash, .deleteWireNode written nodeHash ∈ returnedEffects result →
      written = conversationId :=
    fun written nodeHash hmem => hcall.deletes written nodeHash ((hdeleted _ _).mp hmem)
  obtain ⟨hsealed, hretains⟩ := hcall.applyEffects hfirst hexempt
  rw [← hreturned, ← stores_absorb tracked] at hsealed hretains
  refine ⟨(tracked.touches_absorb conversationId result hself hown).withUsage
    fun other hne => OpaqueUsage.of_promote_of_ne hne hdeletes, hsealed, hretains, ?_⟩
  have hall : Shrinks (tracked.opaqueStoreUsage.of conversationId)
      (tracked.opaqueStoreUsage.of conversationId) fun _ => True :=
    .refl (hkept.tracks conversationId).inOrder fun _ => trivial
  have hshrinks := OpaqueUsage.shrinks_promote hall hdeletes
  simp only [true_and, hdeleted] at hshrinks
  exact hshrinks

variable [ExceptionCodec]

theorem Kept.handleNode (hkept : tracked.Kept) {node : MerkleNode} (nowMs : Int) (fuel : Nat)
    (hunread : hash node ∉ (tracked.stores conversationId).opaqueNodes) :
    (tracked.step (.handleNode conversationId node nowMs fuel)).Kept := by
  rcases heq : (tracked.world conversationId).handleNode conversationId node nowMs fuel with
    ⟨result, after⟩
  have hcleared : Quarantined (fun _ => False) tracked.engine.selfPk
      (tracked.stores conversationId) conversationId []
      ((tracked.world conversationId).withEngine tracked.engine.clearPending).engine
      ((tracked.world conversationId).withEngine tracked.engine.clearPending).store :=
    .new rfl hkept.own (hkept.sealed conversationId) (Engine.trusts_clearPending _ _ _)
  have hcall := World.handleInternal_apart hcleared (fun hmem => hunread hmem.1) heq
  have hreturned : returnedEffects result = [] ++ returnedEffects result := rfl
  obtain ⟨htouches, hsealed, hretains, hshrinks⟩ := hkept.settle hcall.toWithdraws hcall.self
    hcall.own hreturned (fun _ hmem => absurd hmem List.not_mem_nil) fun _ hfalse => hfalse.elim
  have hstep : tracked.step (.handleNode conversationId node nowMs fuel) =
      tracked.settle conversationId
        ((tracked.world conversationId).handleNode conversationId node nowMs fuel).1
        ((tracked.world conversationId).handleNode conversationId node nowMs fuel).2 := rfl
  rw [hstep, heq]
  refine hkept.of_touches htouches hsealed ?_ (hshrinks.total.trans (hkept.within _))
  refine (hkept.tracks conversationId).retain hshrinks (hretains.congr fun nodeHash => ?_)
  exact and_iff_right not_false

omit [ExceptionCodec] in
/-- Authoring leaves the opaque nodes alone. -/
theorem Kept.call (hkept : tracked.Kept) {outcome : Outcome} {nowMs : Int}
    (htraces : outcome.Traces (tracked.stores conversationId) nowMs .calls tracked.engine) :
    (tracked.call conversationId outcome).Kept := by
  have htrace : Trace (tracked.stores conversationId) nowMs .calls tracked.engine
      (returnedEffects outcome.1) outcome.2 := by
    obtain ⟨error | effects, after⟩ := outcome
    · exact htraces
    · exact htraces
  have hcall : Withdraws (fun _ => False) tracked.engine.selfPk (tracked.stores conversationId)
      conversationId ([] ++ returnedEffects outcome.1) (tracked.stores conversationId) :=
    (Withdraws.new (hkept.sealed conversationId)).trace rfl hkept.own htrace
      fun _ _ hevaluated => hevaluated.elim
  have hunwritten : ∀ effect ∈ ([] : List Effect), ∃ written nodeHash wire,
      effect = .writeWireNode written nodeHash wire ∧ False ∧ Genuine nodeHash wire :=
    fun _ hmem => absurd hmem List.not_mem_nil
  obtain ⟨hsealed, hretains⟩ := hcall.applyEffects hunwritten fun _ hfalse => hfalse.elim
  have htouches : tracked.Touches (tracked.call conversationId outcome) conversationId :=
    tracked.touches_absorb conversationId outcome.1 htrace.selfPk_eq (htrace.authorsOwn hkept.own)
  have hstores : (tracked.call conversationId outcome).stores conversationId =
      (tracked.stores conversationId).applyEffects ([] ++ ([] ++ returnedEffects outcome.1)) :=
    stores_absorb tracked conversationId outcome.1 _
  rw [← hstores] at hsealed hretains
  have hall : Shrinks (tracked.opaqueStoreUsage.of conversationId)
      (tracked.opaqueStoreUsage.of conversationId) fun _ => True :=
    .refl (hkept.tracks conversationId).inOrder fun _ => trivial
  refine hkept.of_touches htouches hsealed ?_ (hkept.within conversationId)
  refine (hkept.tracks conversationId).retain hall (hretains.congr fun nodeHash => ?_)
  exact iff_of_true ⟨not_false, htrace.undeleted⟩ trivial

/-! ## Messages -/

variable {senderPk : PhysicalDevicePk} {nodeHash : NodeHash} {wire : WireNode} {active : Bool}
variable {nowMs : Int} {fuel : Nat}

/-- A world in which a message is handled caches nothing but its wire form. -/
structure Arrived (tracked : TrackedEngine) (conversationId : ConversationId)
    (nodeHash : NodeHash) (wire : WireNode) (world : World) : Prop where
  store : world.store = tracked.stores conversationId
  self : world.engine.selfPk = tracked.engine.selfPk
  authored : world.engine.authored = tracked.engine.authored
  nodes : ∀ other, world.engine.pendingCache.nodes.get other = none
  verified : world.engine.pendingCache.verified = []
  wires : ∀ other held, world.engine.pendingCache.wireNodes.get other = some held →
    other = nodeHash ∧ held = (conversationId, wire)

omit [Primitives] [WireCodec] [ExceptionCodec] in
theorem arrived_arrive (tracked : TrackedEngine) (conversationId : ConversationId)
    (nodeHash : NodeHash) (wire : WireNode) (active : Bool) :
    tracked.Arrived conversationId nodeHash wire
      (tracked.arrive conversationId nodeHash wire active) := by
  cases active with
  | true =>
      refine ⟨rfl, rfl, rfl, fun _ => rfl, rfl, fun other held hget => ?_⟩
      have hinsert : ((AssocMap.empty : AssocMap NodeHash (ConversationId × WireNode)).insert
          nodeHash (conversationId, wire)).get other = some held := hget
      rw [AssocMap.get_insert] at hinsert
      split at hinsert
      next heq =>
        cases hinsert
        exact ⟨heq, rfl⟩
      next => cases hinsert
  | false => exact ⟨rfl, rfl, rfl, fun _ => rfl, rfl, fun _ _ hget => by cases hget⟩

omit [Primitives] [WireCodec] [ExceptionCodec] in
theorem Arrived.hasNode (harrived : tracked.Arrived conversationId nodeHash wire world)
    (other : NodeHash) :
    (world.overlay.isVerified other || world.overlay.hasNode other) =
      (tracked.stores conversationId).hasNode other := by
  have hcached : world.overlay.hasNode other = (tracked.stores conversationId).hasNode other := by
    have hnone : world.engine.pendingCache.nodes.contains other = false := by
      rw [AssocMap.contains_eq, harrived.nodes]
      rfl
    rw [← harrived.store]
    exact (congrArg (· || world.store.hasNode other) hnone).trans (Bool.false_or _)
  have hverified : world.overlay.isVerified other =
      (tracked.stores conversationId).isVerified other := by
    rw [← harrived.store]
    have hnone : world.engine.pendingCache.verified.contains other = false := by
      rw [harrived.verified]
      rfl
    exact (congrArg (· || world.store.isVerified other) hnone).trans (Bool.false_or _)
  rw [hcached, hverified, InMemoryStore.isVerified, InMemoryStore.hasNode, AssocMap.contains_eq]
  cases (tracked.stores conversationId).nodes.get other with
  | none => rfl
  | some stored => exact Bool.or_true _

omit [ExceptionCodec] in
theorem Arrived.quarantined (harrived : tracked.Arrived conversationId nodeHash wire world)
    (hkept : tracked.Kept) (hgenuine : Genuine nodeHash wire)
    (hforeign : ¬ Owns tracked.engine.selfPk nodeHash) :
    Quarantined exempt tracked.engine.selfPk (tracked.stores conversationId) conversationId []
      world.engine world.store := by
  have hown : world.engine.AuthorsOwn := by
    unfold Engine.AuthorsOwn
    rw [harrived.authored, harrived.self]
    exact hkept.own
  rw [harrived.store]
  refine .new harrived.self hown (hkept.sealed conversationId)
    ⟨fun other node hget => ?_, fun other held hget => ?_⟩
  · exact nomatch (harrived.nodes other).symm.trans hget
  · obtain ⟨rfl, rfl⟩ := harrived.wires other held hget
    exact ⟨.inl hgenuine, fun h => absurd (harrived.self ▸ h) hforeign⟩

omit [ExceptionCodec] in
/-- A message whose wire form unpacks: its node is stored, and its entry goes. -/
theorem Kept.reopen (hkept : tracked.Kept)
    (hcall : Withdraws (· = nodeHash) tracked.engine.selfPk (tracked.stores conversationId)
      conversationId effects world.store)
    (hself : world.engine.selfPk = tracked.engine.selfPk) (hown : world.engine.AuthorsOwn)
    (hgenuine : Genuine nodeHash wire)
    (hhas : (world.store.applyEffects
      (.writeWireNode conversationId nodeHash wire :: effects)).hasNode nodeHash = true) :
    Kept { tracked.settle conversationId
        (.ok (.writeWireNode conversationId nodeHash wire :: effects)) world with
      opaqueStoreUsage := (tracked.settle conversationId
        (.ok (.writeWireNode conversationId nodeHash wire :: effects))
          world).opaqueStoreUsage.untrack conversationId nodeHash } := by
  have hfirst : ∀ effect ∈ [Effect.writeWireNode conversationId nodeHash wire],
      ∃ written other wired, effect = .writeWireNode written other wired ∧ other = nodeHash ∧
        Genuine other wired := by
    intro effect hmem
    exact ⟨conversationId, nodeHash, wire, List.mem_singleton.mp hmem, rfl, hgenuine⟩
  have hreturned : returnedEffects (.ok (.writeWireNode conversationId nodeHash wire :: effects)) =
      [.writeWireNode conversationId nodeHash wire] ++ effects := rfl
  obtain ⟨htouches, hsealed, hretains, hshrinks⟩ := hkept.settle hcall hself hown hreturned hfirst
    (by rintro other rfl; exact hhas)
  have hremoved := hshrinks.remove nodeHash fun _ => Iff.rfl
  rw [← OpaqueUsage.of_untrack] at hremoved
  refine hkept.of_touches (htouches.withUsage fun other hne => ?_) hsealed ?_
    (hremoved.total.trans (hkept.within _))
  · rw [OpaqueUsage.of_untrack_of_ne hne]
    exact (htouches.others other hne).2
  · exact (hkept.tracks conversationId).retain hremoved (hretains.congr fun _ => and_comm)

section Opened

variable {node : MerkleNode} {after : World}
variable (hopened : (tracked.arrive conversationId nodeHash wire active).openWire senderPk
  conversationId wire = some node)

include hopened

theorem receive_error {error : MerkleToxError}
    (heq : (tracked.arrive conversationId nodeHash wire active).handleInternal conversationId node
      nowMs fuel = (.error error, after)) :
    tracked.receive senderPk conversationId nodeHash wire active nowMs fuel =
      tracked.settle conversationId (.error error) after := by
  unfold receive
  simp only [hopened, heq]

theorem receive_ok
    (heq : (tracked.arrive conversationId nodeHash wire active).handleInternal conversationId node
      nowMs fuel = (.ok effects, after)) :
    tracked.receive senderPk conversationId nodeHash wire active nowMs fuel =
      { tracked.settle conversationId
          (.ok (.writeWireNode conversationId nodeHash wire :: effects)) after with
        opaqueStoreUsage := (tracked.settle conversationId
          (.ok (.writeWireNode conversationId nodeHash wire :: effects))
            after).opaqueStoreUsage.untrack conversationId nodeHash } := by
  unfold receive
  simp only [hopened, heq]

end Opened

theorem Kept.opened (hkept : tracked.Kept) (hgenuine : Genuine nodeHash wire)
    (howns : Owns tracked.engine.selfPk nodeHash →
      (tracked.stores conversationId).hasNode nodeHash = true)
    {node : MerkleNode} (hhash : hash node = nodeHash)
    (hopened : (tracked.arrive conversationId nodeHash wire active).openWire senderPk
      conversationId wire = some node) :
    (tracked.receive senderPk conversationId nodeHash wire active nowMs fuel).Kept := by
  subst hhash
  have harrived := tracked.arrived_arrive conversationId (hash node) wire active
  have hnew := harrived.hasNode (hash node)
  cases hhas : (tracked.stores conversationId).hasNode (hash node) with
  | true =>
      -- The node is stored: nothing is evaluated.
      rw [hhas] at hnew
      have hown : (tracked.arrive conversationId (hash node) wire active).engine.AuthorsOwn := by
        unfold Engine.AuthorsOwn
        rw [harrived.authored, harrived.self]
        exact hkept.own
      have hcall : Withdraws (· = hash node) tracked.engine.selfPk
          (tracked.stores conversationId) conversationId []
          (tracked.arrive conversationId (hash node) wire active).store := by
        rw [harrived.store]
        exact .new (hkept.sealed conversationId)
      rw [receive_ok hopened (if_pos hnew)]
      refine hkept.reopen hcall harrived.self hown hgenuine ?_
      rw [harrived.store]
      exact InMemoryStore.hasNode_applyEffects _ hhas
  | false =>
      have hforeign : ¬ Owns tracked.engine.selfPk (hash node) :=
        fun h => nomatch hhas.symm.trans (howns h)
      have hbefore : Quarantined (· = hash node) tracked.engine.selfPk
          (tracked.stores conversationId) conversationId []
          (tracked.arrive conversationId (hash node) wire active).engine
          (tracked.arrive conversationId (hash node) wire active).store :=
        harrived.quarantined hkept hgenuine hforeign
      rcases heq : (tracked.arrive conversationId (hash node) wire active).handleInternal
        conversationId node nowMs fuel with ⟨error | effects, after⟩
      · have hcall := World.handleInternal_apart hbefore (fun hmem => hmem.2 rfl) heq
        have hreturned : returnedEffects (.error error) = [] ++ [] := rfl
        have hnothing : Withdraws (fun _ => False) tracked.engine.selfPk
            (tracked.stores conversationId) conversationId [] after.store :=
          hcall.toWithdraws.silent
        obtain ⟨htouches, hsealed, hretains, hshrinks⟩ := hkept.settle hnothing hcall.self
          hcall.own hreturned (fun _ hmem => absurd hmem List.not_mem_nil)
          fun _ hfalse => hfalse.elim
        rw [receive_error hopened heq]
        refine hkept.of_touches htouches hsealed ?_ (hshrinks.total.trans (hkept.within _))
        refine (hkept.tracks conversationId).retain hshrinks (hretains.congr fun other => ?_)
        exact and_iff_right not_false
      · have hcall := World.handleInternal_apart hbefore (fun hmem => hmem.2 rfl) heq
        rw [hhas] at hnew
        obtain ⟨verified, hwritten⟩ := World.handleInternal_writes heq hnew
        rw [receive_ok hopened heq]
        exact hkept.reopen hcall.toWithdraws hcall.self hcall.own hgenuine
          (InMemoryStore.hasNode_of_written (List.mem_cons_of_mem _ hwritten))

/-- A message whose wire form does not unpack: it is stored and tracked, and the quota is kept. -/
theorem Kept.hoarded (hkept : tracked.Kept) (hgenuine : Genuine nodeHash wire)
    (hforeign : ¬ Owns tracked.engine.selfPk nodeHash)
    (habsent : (tracked.stores conversationId).hasNode nodeHash = false)
    (hunread : nodeHash ∉ (tracked.stores conversationId).opaqueNodes)
    (hroom : ((tracked.opaqueStoreUsage.of conversationId).entries.filter
      fun entry => entry.senderPk = senderPk).length < maxOpaqueRequestsPerVoucher)
    (hclosed : (tracked.arrive conversationId nodeHash wire active).openWire senderPk
      conversationId wire = none) :
    (tracked.receive senderPk conversationId nodeHash wire active nowMs fuel).Kept := by
  have harrived := tracked.arrived_arrive conversationId nodeHash wire active
  have hcall : Quarantined (fun _ => False) tracked.engine.selfPk (tracked.stores conversationId)
      conversationId [] (tracked.arrive conversationId nodeHash wire active).engine
      (tracked.arrive conversationId nodeHash wire active).store :=
    harrived.quarantined hkept hgenuine hforeign
  obtain ⟨entry, hentry⟩ : ∃ entry : OpaqueEntry,
      entry = ⟨nodeHash, wire.wireSize, nowMs, senderPk⟩ := ⟨_, rfl⟩
  obtain ⟨ledger, hledger⟩ : ∃ ledger, ledger =
      (tracked.opaqueStoreUsage.of conversationId).push OpaqueEntry.size entry := ⟨_, rfl⟩
  obtain ⟨evicted, hevicted⟩ : ∃ evicted, evicted =
      evictOpaque (tracked.stores conversationId) conversationId [] ledger := ⟨_, rfl⟩
  -- The room below the limit of the sender makes the call push the entry and evict.
  have hreceive : tracked.receive senderPk conversationId nodeHash wire active nowMs fuel =
      { tracked.absorb conversationId (.ok (.writeWireNode conversationId nodeHash wire ::
          evicted.1.map fun entry => .deleteWireNode conversationId entry.hash))
          (tracked.arrive conversationId nodeHash wire active) with
        opaqueStoreUsage := tracked.opaqueStoreUsage.insert conversationId evicted.2 } := by
    have htrack : tracked.opaqueStoreUsage.track conversationId entry = ledger := by
      rw [hledger, OpaqueUsage.track, hentry]
      exact if_neg (Nat.not_le.mpr hroom)
    rw [hevicted, ← htrack, ← hkept.unlocked, ← harrived.store, hentry]
    unfold receive
    simp only [hclosed]
    rfl
  have hstored : (evicted.1.map fun entry => Effect.deleteWireNode conversationId entry.hash) =
      (evicted.1.map OpaqueEntry.hash).map (.deleteWireNode conversationId) := by
    rw [List.map_map]
    rfl
  have hstores : (tracked.receive senderPk conversationId nodeHash wire active nowMs
      fuel).stores conversationId =
        ((tracked.stores conversationId).putWireNode conversationId nodeHash wire).applyEffects
          ((evicted.1.map OpaqueEntry.hash).map (.deleteWireNode conversationId)) := by
    rw [hreceive, ← hstored, ← harrived.store]
    exact stores_absorb tracked conversationId _ _
  have hledger' : (tracked.receive senderPk conversationId nodeHash wire active nowMs
      fuel).opaqueStoreUsage.of conversationId = evicted.2 := by
    rw [hreceive]
    unfold OpaqueUsage.of
    rw [AssocMap.get_insert_self]
    rfl
  have htouches : tracked.Touches
      (tracked.receive senderPk conversationId nodeHash wire active nowMs fuel) conversationId := by
    rw [hreceive]
    refine (tracked.touches_absorb conversationId _ hcall.self hcall.own).withUsage
      fun other hne => ?_
    unfold OpaqueUsage.of
    rw [AssocMap.get_insert_of_ne _ _ hne]
  have hsealed := hkept.sealed conversationId
  have hhash : entry.hash = nodeHash := by rw [hentry]
  -- The pushed entry is of the wire form that the same call writes.
  have hpushed : Tracks ledger
      ((tracked.stores conversationId).putWireNode conversationId nodeHash wire) := by
    rw [hledger, ← hhash]
    exact (hkept.tracks conversationId).push (hhash ▸ hunread) (hhash ▸ habsent) (by rw [hentry])
  have hput : ((tracked.stores conversationId).putWireNode conversationId nodeHash wire).Sealed
      tracked.engine.selfPk := hsealed.putWireNode conversationId hgenuine hforeign
  -- What eviction drops from the ledger its effects delete from the store.
  have hretains := InMemoryStore.retains_deletes hput.wellFormed conversationId
    (evicted.1.map OpaqueEntry.hash)
  have hshrinks : Shrinks ledger evicted.2 (· ∉ evicted.1.map OpaqueEntry.hash) := by
    rw [hevicted]
    exact shrinks_evictOpaque hpushed.inOrder _ conversationId []
  refine hkept.of_touches htouches ?_ ?_ ?_
  · rw [hstores]
    exact hput.deletes conversationId _
  · rw [hstores, hledger']
    exact hpushed.retain hshrinks hretains
  · rw [hledger', hevicted]
    exact within_evictOpaque hpushed.inOrder _ conversationId

/-- A command that keeps the books: a node that is handled is not opaque, and a message is as
described above. A wire form is not taken under the hash of an own node that is not stored. -/
def Sound (tracked : TrackedEngine) : TrackedCommand → Prop
  | .handleNode conversationId node _ _ =>
      hash node ∉ (tracked.stores conversationId).opaqueNodes
  | .receive senderPk conversationId nodeHash wire active _ _ =>
      Genuine nodeHash wire ∧
      (Owns tracked.engine.selfPk nodeHash →
        (tracked.stores conversationId).hasNode nodeHash = true) ∧
      match (tracked.arrive conversationId nodeHash wire active).openWire senderPk conversationId
        wire with
      | some node => hash node = nodeHash
      | none =>
          (tracked.stores conversationId).hasNode nodeHash = false ∧
          nodeHash ∉ (tracked.stores conversationId).opaqueNodes ∧
          ((tracked.opaqueStoreUsage.of conversationId).entries.filter
            fun entry => entry.senderPk = senderPk).length < maxOpaqueRequestsPerVoucher
  | _ => True

theorem Kept.step (hkept : tracked.Kept) {command : TrackedCommand}
    (hsound : tracked.Sound command) :
    (tracked.step command).Kept := by
  cases command with
  | handleNode conversationId node nowMs fuel => exact hkept.handleNode nowMs fuel hsound
  | authorNode conversationId content metadata nowMs =>
      exact hkept.call (Engine.authorNode_trace _ _ conversationId nowMs content metadata
        fun _ => trivial)
  | rotateConversationKey conversationId nowMs =>
      exact hkept.call (Engine.rotateConversationKey_trace _ _ conversationId nowMs false)
  | senderRekey conversationId nowMs =>
      exact hkept.call (Engine.senderRekey_trace _ _ conversationId nowMs)
  | receive senderPk conversationId nodeHash wire active nowMs fuel =>
      obtain ⟨hgenuine, howns, hwire⟩ := hsound
      split at hwire
      next node hopened => exact hkept.opened hgenuine howns hwire hopened
      next hclosed =>
        obtain ⟨habsent, hunread, hroom⟩ := hwire
        refine hkept.hoarded hgenuine (fun h => ?_) habsent hunread hroom hclosed
        exact nomatch habsent.symm.trans (howns h)

/-- Along a run of such commands the books are kept in every conversation. -/
theorem run_keepsBooks (engine : Engine) (hown : engine.AuthorsOwn)
    {commands : List TrackedCommand} (hmeets : RunMeets step Sound (new engine) commands) :
    ∀ conversationId, ((new engine).run commands).KeepsBooks conversationId :=
  (hmeets.invariant Kept (fun _ _ hkept hsound => hkept.step hsound) (.new hown)).keepsBooks

end TrackedEngine

namespace Reference

/-- No wire form unpacks as a cleartext one. -/
instance closedCodec : ExceptionCodec where
  unpackException _ := none

def sealedWire : WireNode where
  parents := []
  senderHint := 0
  encryptedRouting := [1, 2, 3]
  payloadData := [4, 5]
  topologicalRank := 0
  flags := 2
  authentication := .signature ⟨0⟩

/-- A hash that no node has. -/
def freeHash : NodeHash := ⟨BitVec.ofNat 256 (2 ^ 255 + 7)⟩

theorem digest_lt (numbers : List Nat) : digest numbers < 2 ^ 255 := by
  have hfold : ∀ acc < 2 ^ 255, numbers.foldl
      (fun acc number => (acc * 1000003 + number + 1) % 2 ^ 255) acc < 2 ^ 255 := by
    induction numbers with
    | nil => exact fun _ hlt => hlt
    | cons first rest ih => exact fun _ _ => ih _ (Nat.mod_lt _ (by norm_num))
  exact hfold 17 (by norm_num)

theorem hash_ne_of_lt {nodeHash : NodeHash} (hlt : 2 ^ 255 < nodeHash.bytes.toNat)
    (node : MerkleNode) : hash node ≠ nodeHash := by
  intro heq
  have hcode : nodeCode node < 2 ^ 255 := digest_lt _
  have hbits : (BitVec.ofNat 256 (1 + nodeCode node)).toNat = nodeHash.bytes.toNat :=
    congrArg (fun nodeHash => nodeHash.bytes.toNat) heq
  rw [BitVec.toNat_ofNat] at hbits
  omega

/-- A message that the device cannot read. -/
def sealedMessage : TrackedCommand := .receive ⟨9⟩ room freeHash sealedWire false 0 0

/-- Another one, of any size. -/
def bulkyMessage (payload : Bytes) : TrackedCommand :=
  .receive ⟨9⟩ room ⟨freeHash.bytes + 1⟩ { sealedWire with payloadData := payload } false 0 0

def keeper : Engine := Engine.new ⟨1⟩ ⟨1⟩ (some ⟨1⟩) none ⟨0, 0⟩

/-- A wire form under a hash of its own keeps the books of a device without keys. -/
theorem sound_unread {tracked : TrackedEngine} {nodeHash : NodeHash} {wire : WireNode}
    (hlt : 2 ^ 255 < nodeHash.bytes.toNat) (hencrypted : wire.isEncrypted = true)
    (hkeyless : (tracked.engine.establishedState room).isNone = true)
    (hfresh : (tracked.stores room).hasNode nodeHash = false ∧
      nodeHash ∉ (tracked.stores room).opaqueNodes ∧
      ((tracked.opaqueStoreUsage.of room).entries.filter
        fun entry => entry.senderPk = ⟨9⟩).length < maxOpaqueRequestsPerVoucher) :
    tracked.Sound (.receive ⟨9⟩ room nodeHash wire false 0 0) := by
  refine ⟨fun _ _ _ hunpacked => (nomatch hunpacked), ?_, ?_⟩
  · rintro ⟨node, hhash, -⟩
    exact absurd hhash (hash_ne_of_lt hlt node)
  · have hnone : (tracked.arrive room nodeHash wire false).engine.establishedState room = none :=
      Option.isNone_iff_eq_none.mp hkeyless
    rw [World.openWire, World.openException, if_pos hencrypted, World.openContent, hnone]
    exact hfresh

/-- Two messages that together exceed the quota, so that the first is evicted. -/
theorem keepsBooks_evicting :
    ((TrackedEngine.new keeper).run
      [sealedMessage, bulkyMessage (List.replicate opaqueStoreQuota 0)]).KeepsBooks room := by
  have hmeets : RunMeets TrackedEngine.step TrackedEngine.Sound (.new keeper)
      [sealedMessage, bulkyMessage (List.replicate opaqueStoreQuota 0)] :=
    ⟨sound_unread (by decide) (by decide) (by decide) (by decide),
      sound_unread (by decide) (by decide) (by decide) (by decide), trivial⟩
  exact TrackedEngine.run_keepsBooks keeper (fun _ hmem => absurd hmem List.not_mem_nil) hmeets
    room

/-- The message comes twice and is tracked twice. -/
theorem not_keepsBooks :
    ¬ ((TrackedEngine.new keeper).run [sealedMessage, sealedMessage]).KeepsBooks room := by
  intro hkeeps
  have hdistinct := hkeeps.distinct
  revert hdistinct
  decide

end Reference

end MerkleTox.Core
