import MerkleTox.Core.OpaqueUsage

/-! # Opaque nodes through a call

A call takes opaque nodes out of the store only to unpack them, and reports each of them by an
effect. What it writes meanwhile are nodes with other hashes, provided that a wire form unpacks
to no node but the one under whose hash it is stored, and that no opaque node is one of the
device's own.
-/

namespace MerkleTox.Core

open Library Proto

variable {wire : WireNode}

/-! ## What a trace writes -/

/-- The hash of a node that a device authors. -/
def Owns [Primitives] (selfPk : PhysicalDevicePk) (nodeHash : NodeHash) : Prop :=
  ∃ node, hash node = nodeHash ∧ node.senderPk = selfPk

/-- The nodes that an engine has authored are its own. -/
def Engine.AuthorsOwn (engine : Engine) : Prop :=
  ∀ entry ∈ engine.authored, entry.2.senderPk = engine.selfPk

section Traces

variable [Primitives] {store : InMemoryStore} {nowMs : Int} {origin : Sources}
variable {before after : Engine} {effects : List Effect}

theorem Trace.selfPk_eq (htrace : Trace store nowMs origin before effects after) :
    after.selfPk = before.selfPk := congrArg Prod.fst htrace.device_eq

variable {node : MerkleNode} {nodeHash : NodeHash} {conversationId : ConversationId}

theorem updateHeads_undeleted (engine : Engine) {conversationId written : ConversationId} :
    Effect.deleteWireNode written nodeHash ∉
      (engine.updateHeads store conversationId node).1 := by
  unfold Engine.updateHeads
  simp only
  split <;> simp

variable {verified : Bool}

theorem updateHeads_unwritten (engine : Engine) {conversationId written : ConversationId}
    {node held : MerkleNode} :
    Effect.writeStore written held verified ∉
      (engine.updateHeads store conversationId node).1 := by
  unfold Engine.updateHeads
  simp only
  split <;> simp

theorem Move.undeleted (hmove : Move store nowMs origin before effects after) :
    .deleteWireNode conversationId nodeHash ∉ effects := by
  cases hmove with
  | quiet hsettled hprivate => exact fun hmem => nomatch hprivate _ hmem
  | heads => exact updateHeads_undeleted _
  | _ => simp

/-- Only re-verification takes wire forms out. -/
theorem Trace.undeleted (htrace : Trace store nowMs origin before effects after) :
    .deleteWireNode conversationId nodeHash ∉ effects := by
  induction htrace with
  | refl => exact List.not_mem_nil
  | keep _ hmove _ ih =>
      rw [List.mem_append, not_or]
      exact ⟨ih, hmove.undeleted⟩
  | lose _ _ ih => exact ih
  | clear _ ih => exact ih

theorem Move.written (hmove : Move store nowMs origin before effects after)
    (hmem : .writeStore conversationId node verified ∈ effects) :
    origin.evaluated conversationId node ∨ node.senderPk = before.selfPk ∨
      node ∈ store.getVerifiedNodesByType node.nodeType := by
  cases hmove with
  | quiet hsettled hprivate => exact nomatch hprivate _ hmem
  | evaluated _ _ _ horigin =>
      rw [List.mem_singleton, Effect.writeStore.injEq] at hmem
      obtain ⟨rfl, rfl, -⟩ := hmem
      exact .inl horigin
  | own _ _ hdraft hcontent hsender =>
      rw [List.mem_singleton, Effect.writeStore.injEq] at hmem
      obtain ⟨-, rfl, -⟩ := hmem
      exact .inr (.inl hsender)
  | invalidate _ _ hstored =>
      simp only [List.mem_cons, Effect.writeStore.injEq, reduceCtorEq, List.not_mem_nil, or_false]
        at hmem
      obtain ⟨-, rfl, -⟩ := hmem
      exact .inr (.inr hstored)
  | heads => exact absurd hmem (updateHeads_unwritten _)
  | _ => simp at hmem

/-- A call writes what it evaluates, what it authors, and verified nodes that are stored. -/
theorem Trace.written (htrace : Trace store nowMs origin before effects after)
    (hmem : .writeStore conversationId node verified ∈ effects) :
    origin.evaluated conversationId node ∨ node.senderPk = before.selfPk ∨
      node ∈ store.getVerifiedNodesByType node.nodeType := by
  induction htrace with
  | refl => exact absurd hmem List.not_mem_nil
  | keep htrace hmove _ ih =>
      rcases List.mem_append.mp hmem with hmem | hmem
      · exact ih hmem
      · rw [← htrace.selfPk_eq]
        exact hmove.written hmem
  | lose _ _ ih => exact ih hmem
  | clear _ ih => exact ih hmem

theorem Move.authorsOwn (hmove : Move store nowMs origin before effects after)
    (hown : before.AuthorsOwn) : after.AuthorsOwn := by
  cases hmove with
  | quiet hsettled =>
      have hself : after.selfPk = before.selfPk :=
        congrArg Prod.fst (Engine.device_of_settled hsettled)
      unfold Engine.AuthorsOwn
      rw [Engine.authored_of_settled hsettled, hself]
      exact hown
  | own conversationId node hdraft hcontent hsender =>
      intro entry hmem
      rcases List.mem_cons.mp hmem with rfl | hmem
      · exact hsender
      · exact hown entry hmem
  | heads =>
      unfold Engine.updateHeads
      simp only
      split <;> exact hown
  | _ => exact hown

theorem Trace.authorsOwn (htrace : Trace store nowMs origin before effects after)
    (hown : before.AuthorsOwn) : after.AuthorsOwn := by
  induction htrace with
  | refl => exact hown
  | keep _ hmove _ ih | lose _ hmove ih => exact hmove.authorsOwn ih
  | clear _ ih => exact ih

theorem updateHeads_unwiredAt (engine : Engine)
    {conversationId written : ConversationId} : Effect.writeWireNode written nodeHash wire ∉
      (engine.updateHeads store conversationId node).1 := by
  unfold Engine.updateHeads
  simp only
  split <;> simp

/-- A call writes wire forms of own nodes only. -/
theorem Trace.wired (htrace : Trace store nowMs origin before effects after)
    (hown : before.AuthorsOwn) (hmem : .writeWireNode conversationId nodeHash wire ∈ effects) :
    Owns before.selfPk nodeHash := by
  induction htrace with
  | refl => exact absurd hmem List.not_mem_nil
  | keep htrace hmove _ ih =>
      rcases List.mem_append.mp hmem with hmem | hmem
      · exact ih hmem
      · rw [← htrace.selfPk_eq]
        cases hmove with
        | quiet hsettled hprivate => exact nomatch hprivate _ hmem
        | ownWire written node wired hauthored =>
            rw [List.mem_singleton, Effect.writeWireNode.injEq] at hmem
            exact ⟨node, hmem.2.1.symm, htrace.authorsOwn hown _ hauthored⟩
        | heads => exact absurd hmem (updateHeads_unwiredAt _)
        | _ => simp at hmem
  | lose _ _ ih => exact ih hmem
  | clear _ ih => exact ih hmem

end Traces

/-! ## What the cache and the store hold -/

/-- A wire form that unpacks to no node but that of a hash. -/
def Genuine [Primitives] [WireCodec] (nodeHash : NodeHash) (wire : WireNode) : Prop :=
  ∀ em senders node, WireCodec.unpack em wire senders = some node → hash node = nodeHash

section Holdings

variable [Primitives] [WireCodec]

/-- The store holds genuine wire forms, beside those of the device's own nodes, and none of the
opaque nodes is one of these. -/
structure InMemoryStore.Sealed (selfPk : PhysicalDevicePk) (store : InMemoryStore) : Prop where
  wellFormed : store.WellFormed
  foreign : ∀ nodeHash ∈ store.opaqueNodes, ¬ Owns selfPk nodeHash
  wires : ∀ nodeHash held, store.wireNodes.get nodeHash = some held →
    Genuine nodeHash held.2 ∨ Owns selfPk nodeHash

/-- An opaque node with a hash that is not exempt. -/
def InMemoryStore.Awaits (store : InMemoryStore) (exempt : NodeHash → Prop)
    (nodeHash : NodeHash) : Prop :=
  nodeHash ∈ store.opaqueNodes ∧ ¬ exempt nodeHash

/-- The cache holds no node that is opaque in the store. An own wire form is cached with its
node. -/
structure Engine.Trusts (engine : Engine) (store : InMemoryStore) (exempt : NodeHash → Prop) :
    Prop where
  nodes : ∀ nodeHash node, engine.pendingCache.nodes.get nodeHash = some node →
    hash node = nodeHash ∧ ¬ store.Awaits exempt nodeHash
  wires : ∀ nodeHash held, engine.pendingCache.wireNodes.get nodeHash = some held →
    (Genuine nodeHash held.2 ∨ Owns engine.selfPk nodeHash) ∧
      (Owns engine.selfPk nodeHash → (engine.pendingCache.nodes.get nodeHash).isSome = true)

variable {store : InMemoryStore} {exempt : NodeHash → Prop} {engine after : Engine}

/-- Caching a node that is not opaque. -/
theorem Engine.Trusts.insert (htrusts : engine.Trusts store exempt) {node : MerkleNode}
    (hunread : ¬ store.Awaits exempt (hash node))
    (hnodes : after.pendingCache.nodes = engine.pendingCache.nodes.insert (hash node) node)
    (hwires : after.pendingCache.wireNodes = engine.pendingCache.wireNodes)
    (hself : after.selfPk = engine.selfPk) : after.Trusts store exempt where
  nodes nodeHash held hget := by
    rw [hnodes, AssocMap.get_insert] at hget
    split at hget
    next heq =>
      cases hget
      exact ⟨heq.symm, heq ▸ hunread⟩
    next => exact htrusts.nodes nodeHash held hget
  wires nodeHash held hget := by
    rw [hwires] at hget
    rw [hself, hnodes, AssocMap.get_insert]
    obtain ⟨hgenuine, hcached⟩ := htrusts.wires nodeHash held hget
    refine ⟨hgenuine, fun howns => ?_⟩
    split
    · rfl
    · exact hcached howns

/-- Changes that leave the cached nodes and wire forms alone. -/
theorem Engine.Trusts.same (htrusts : engine.Trusts store exempt)
    (hnodes : after.pendingCache.nodes = engine.pendingCache.nodes)
    (hwires : after.pendingCache.wireNodes = engine.pendingCache.wireNodes)
    (hself : after.selfPk = engine.selfPk) : after.Trusts store exempt where
  nodes := by
    rw [hnodes]
    exact htrusts.nodes
  wires := by
    rw [hnodes, hwires, hself]
    exact htrusts.wires

theorem Engine.trusts_clearPending (engine : Engine) (store : InMemoryStore)
    (exempt : NodeHash → Prop) :
    engine.clearPending.Trusts store exempt where
  nodes _ _ hget := nomatch hget
  wires _ _ hget := nomatch hget

variable {nowMs : Int} {origin : Sources} {effects : List Effect}

theorem Move.trusts (hmove : Move store nowMs origin engine effects after)
    (htrusts : engine.Trusts store exempt) (hown : engine.AuthorsOwn)
    (horigin : ∀ conversationId node, origin.evaluated conversationId node →
      ¬ store.Awaits exempt (hash node))
    (hforeign : ∀ nodeHash ∈ store.opaqueNodes, ¬ Owns engine.selfPk nodeHash) :
    after.Trusts store exempt := by
  cases hmove with
  | quiet hsettled =>
      have hcache := Engine.pendingCache_of_settled hsettled
      exact htrusts.same (congrArg _ hcache) (congrArg _ hcache)
        (congrArg Prod.fst (Engine.device_of_settled hsettled))
  | learn => exact htrusts.same rfl rfl rfl
  | evaluated conversationId node verified hevaluated =>
      refine htrusts.insert (horigin conversationId node hevaluated) ?_ ?_ rfl
      · cases verified <;> rfl
      · cases verified <;> rfl
  | accept => exact htrusts.same rfl rfl rfl
  | own conversationId node hdraft hcontent hsender =>
      exact htrusts.insert (fun hmem => hforeign _ hmem.1 ⟨node, rfl, hsender⟩) rfl rfl rfl
  | ownWire conversationId node wire hauthored hcached =>
      refine ⟨htrusts.nodes, fun nodeHash held hget => ?_⟩
      simp only [AssocMap.get_insert] at hget
      split at hget
      next heq =>
        refine ⟨.inr ⟨node, heq.symm, hown _ hauthored⟩, fun _ => ?_⟩
        rw [heq, hcached]
        rfl
      next => exact htrusts.wires nodeHash held hget
  | recheck conversationId node hstored =>
      refine htrusts.same ?_ ?_ rfl
      · unfold PendingCache.markVerified
        simp only
        split <;> rfl
      · unfold PendingCache.markVerified
        simp only
        split <;> rfl
  | invalidate => exact htrusts
  | heads conversationId node =>
      unfold Engine.updateHeads
      simp only
      split <;> exact htrusts.same rfl rfl rfl

/-- Calls keep the cache apart from the opaque nodes. -/
theorem Trace.trusts (htrace : Trace store nowMs origin engine effects after)
    (htrusts : engine.Trusts store exempt) (hown : engine.AuthorsOwn)
    (horigin : ∀ conversationId node, origin.evaluated conversationId node →
      ¬ store.Awaits exempt (hash node))
    (hforeign : ∀ nodeHash ∈ store.opaqueNodes, ¬ Owns engine.selfPk nodeHash) :
    after.Trusts store exempt := by
  induction htrace with
  | refl => exact htrusts
  | keep htrace hmove _ ih =>
      exact hmove.trusts ih (htrace.authorsOwn hown) horigin
        (by rw [htrace.selfPk_eq]; exact hforeign)
  | lose htrace hmove ih =>
      exact hmove.trusts ih (htrace.authorsOwn hown) horigin
        (by rw [htrace.selfPk_eq]; exact hforeign)
  | clear => exact Engine.trusts_clearPending _ store exempt

/-- A wire form that the overlay has under the hash of no own node is genuine. -/
theorem InMemoryStore.Sealed.genuine (hsealed : store.Sealed engine.selfPk)
    (htrusts : engine.Trusts store exempt) {nodeHash : NodeHash}
    (hforeign : ¬ Owns engine.selfPk nodeHash)
    (hwire : (engine.overlay store).getWireNode nodeHash = some wire) : Genuine nodeHash wire := by
  unfold Overlay.getWireNode Engine.overlay at hwire
  simp only at hwire
  cases hcached : engine.pendingCache.wireNodes.get nodeHash with
  | some held =>
      rw [hcached] at hwire
      cases hwire
      exact (htrusts.wires nodeHash held hcached).1.resolve_right hforeign
  | none =>
      rw [hcached, Option.none_or] at hwire
      obtain ⟨held, hget, rfl⟩ := Option.map_eq_some_iff.mp hwire
      exact (hsealed.wires nodeHash held hget).resolve_right hforeign

theorem InMemoryStore.Sealed.removeWireNode {selfPk : PhysicalDevicePk}
    (hsealed : store.Sealed selfPk) (removed : NodeHash) :
    (store.removeWireNode removed).Sealed selfPk where
  wellFormed := hsealed.wellFormed.removeWireNode removed
  foreign nodeHash hmem := hsealed.foreign nodeHash (List.mem_of_mem_erase hmem)
  wires nodeHash held hget := by
    by_cases heq : nodeHash = removed
    · rw [heq] at hget
      exact nomatch (AssocMap.get_erase_self _ _).symm.trans hget
    · exact hsealed.wires nodeHash held ((AssocMap.get_erase_of_ne _ heq).symm.trans hget)

end Holdings

/-! ## The progress of a call -/

section Calls

variable [Primitives] [WireCodec]

/-- What the effects that a call has kept say of the store: it lacks the opaque nodes that they
report, and they write no node that is opaque still. -/
structure Withdraws (exempt : NodeHash → Prop) (selfPk : PhysicalDevicePk)
    (start : InMemoryStore) (conversationId : ConversationId) (effects : List Effect)
    (store : InMemoryStore) : Prop where
  sealed : store.Sealed selfPk
  waiting : ∀ nodeHash, nodeHash ∈ store.opaqueNodes ↔
    nodeHash ∈ start.opaqueNodes ∧ .deleteWireNode conversationId nodeHash ∉ effects
  wires : ∀ nodeHash, .deleteWireNode conversationId nodeHash ∉ effects →
    store.wireNodes.get nodeHash = start.wireNodes.get nodeHash
  deletes : ∀ written nodeHash, .deleteWireNode written nodeHash ∈ effects →
    written = conversationId
  writes : ∀ written node verified, .writeStore written node verified ∈ effects →
    ¬ store.Awaits exempt (hash node)
  wired : ∀ written nodeHash wire, .writeWireNode written nodeHash wire ∈ effects →
    Owns selfPk nodeHash
  paired : Paired effects

/-- What holds in the middle of a call. -/
structure Quarantined (exempt : NodeHash → Prop) (selfPk : PhysicalDevicePk)
    (start : InMemoryStore) (conversationId : ConversationId) (effects : List Effect)
    (engine : Engine) (store : InMemoryStore) : Prop
    extends Withdraws exempt selfPk start conversationId effects store where
  self : engine.selfPk = selfPk
  own : engine.AuthorsOwn
  trusts : engine.Trusts store exempt

variable {exempt : NodeHash → Prop} {selfPk : PhysicalDevicePk} {start store : InMemoryStore}
variable {conversationId : ConversationId} {effects kept : List Effect} {engine after : Engine}
variable {nowMs : Int} {origin : Sources}

theorem Withdraws.new (hsealed : store.Sealed selfPk) :
    Withdraws exempt selfPk store conversationId [] store where
  sealed := hsealed
  waiting _ := ⟨fun hmem => ⟨hmem, List.not_mem_nil⟩, And.left⟩
  wires _ _ := rfl
  deletes _ _ hmem := absurd hmem List.not_mem_nil
  writes _ _ _ hmem := absurd hmem List.not_mem_nil
  wired _ _ _ hmem := absurd hmem List.not_mem_nil
  paired := .nil

/-- A call of the engine that evaluates no opaque node. -/
theorem Withdraws.trace (hcall : Withdraws exempt selfPk start conversationId effects store)
    (hself : engine.selfPk = selfPk) (hown : engine.AuthorsOwn)
    (htrace : Trace store nowMs origin engine kept after)
    (horigin : ∀ conversationId node, origin.evaluated conversationId node →
      ¬ store.Awaits exempt (hash node)) :
    Withdraws exempt selfPk start conversationId (effects ++ kept) store where
  sealed := hcall.sealed
  waiting _ := by
    rw [hcall.waiting, List.mem_append, or_iff_left htrace.undeleted]
  wires nodeHash hkept := hcall.wires nodeHash fun hmem =>
    hkept (List.mem_append_left _ hmem)
  deletes written nodeHash hmem := hcall.deletes written nodeHash
    ((List.mem_append.mp hmem).resolve_right htrace.undeleted)
  writes written node verified hmem := by
    rcases List.mem_append.mp hmem with hmem | hmem
    · exact hcall.writes written node verified hmem
    · intro hunread
      rcases htrace.written hmem with hevaluated | hauthored | hstored
      · exact horigin _ node hevaluated hunread
      · exact hcall.sealed.foreign _ hunread.1 ⟨node, rfl, hauthored.trans hself⟩
      · -- A verified node is stored, so it is not opaque.
        have hget := (hcall.sealed.wellFormed.mem_getVerifiedNodesByType.mp hstored).1
        have habsent := hcall.sealed.wellFormed.opaqueAbsent _ hunread.1
        rw [InMemoryStore.hasNode_eq, hget] at habsent
        cases habsent
  wired written nodeHash wire hmem := by
    rcases List.mem_append.mp hmem with hmem | hmem
    · exact hcall.wired written nodeHash wire hmem
    · rw [← hself]
      exact htrace.wired hown hmem
  paired := hcall.paired.append htrace.paired

/-- While no effects are kept nothing is exempt. -/
theorem Withdraws.silent {exempt' : NodeHash → Prop}
    (hcall : Withdraws exempt selfPk start conversationId [] store) :
    Withdraws exempt' selfPk start conversationId [] store :=
  { hcall with writes := fun _ _ _ hmem => absurd hmem List.not_mem_nil }

namespace Quarantined

theorem new (hself : engine.selfPk = selfPk) (hown : engine.AuthorsOwn)
    (hsealed : store.Sealed selfPk) (htrusts : engine.Trusts store exempt) :
    Quarantined exempt selfPk store conversationId [] engine store :=
  ⟨.new hsealed, hself, hown, htrusts⟩

section

variable (hcall : Quarantined exempt selfPk start conversationId effects engine store)
include hcall

theorem trace (htrace : Trace store nowMs origin engine kept after)
    (horigin : ∀ conversationId node, origin.evaluated conversationId node →
      ¬ store.Awaits exempt (hash node)) :
    Quarantined exempt selfPk start conversationId (effects ++ kept) after store where
  toWithdraws := hcall.toWithdraws.trace hcall.self hcall.own htrace horigin
  self := htrace.selfPk_eq.trans hcall.self
  own := htrace.authorsOwn hcall.own
  trusts := htrace.trusts hcall.trusts hcall.own horigin
    (by rw [hcall.self]; exact hcall.sealed.foreign)

/-- A speculative node is not opaque. -/
theorem speculative :
    ∀ node ∈ (engine.overlay store).getSpeculativeNodes, ¬ store.Awaits exempt (hash node) := by
  intro node hmem
  unfold Overlay.getSpeculativeNodes at hmem
  rcases List.mem_append.mp hmem with hmem | hmem
  · intro hunread
    obtain ⟨hget, -⟩ :=
      hcall.sealed.wellFormed.mem_getSpeculativeNodes.mp (List.mem_filter.mp hmem).1
    have habsent := hcall.sealed.wellFormed.opaqueAbsent _ hunread.1
    rw [InMemoryStore.hasNode_eq, hget] at habsent
    cases habsent
  · obtain ⟨nodeHash, hget, -⟩ := AssocMap.mem_valuesWhere.mp hmem
    obtain ⟨rfl, hunread⟩ := hcall.trusts.nodes nodeHash node hget
    exact hunread

/-- No own node is listed as opaque. -/
theorem listed :
    ∀ nodeHash ∈ (engine.overlay store).getOpaqueNodeHashes conversationId,
      ¬ Owns selfPk nodeHash := by
  intro nodeHash hmem
  unfold Overlay.getOpaqueNodeHashes at hmem
  rcases List.mem_append.mp hmem with hmem | hmem
  · exact hcall.sealed.foreign nodeHash (List.mem_filter.mp hmem).1
  · -- The wire form of an own node would be cached with the node.
    obtain ⟨held, hget, htest⟩ := AssocMap.mem_keysWhere.mp hmem
    simp only [Bool.and_eq_true, Bool.not_eq_true', AssocMap.contains_eq] at htest
    intro howns
    rw [← hcall.self] at howns
    have hcached := (hcall.trusts.wires nodeHash held hget).2 howns
    cases hcached.symm.trans htest.1.2

/-- Nodes that are noted as verified are not opaque. -/
theorem note {entries : List (ConversationId × MerkleNode)}
    (hentries : ∀ entry ∈ entries, ¬ store.Awaits exempt (hash entry.2)) :
    Quarantined exempt selfPk start conversationId effects
      { engine with
          pendingCache := entries.foldl
            (fun cache (conversationId, node) => cache.noteReverified conversationId node)
            engine.pendingCache } store := by
  refine { hcall with self := hcall.self, own := hcall.own, trusts := ?_ }
  have htrusts := hcall.trusts
  clear hcall
  induction entries generalizing engine with
  | nil => exact htrusts
  | cons entry rest ih =>
      obtain ⟨noted, node⟩ := entry
      have hnext : Engine.Trusts
          { engine with pendingCache := engine.pendingCache.noteReverified noted node } store
            exempt :=
        htrusts.insert (hentries _ List.mem_cons_self) rfl rfl rfl
      exact ih (fun other hmem => hentries other (List.mem_cons_of_mem _ hmem)) hnext

/-- An opaque node that unpacks leaves the store and is held in the cache. -/
theorem hold {nodeHash : NodeHash} (hforeign : ¬ Owns selfPk nodeHash)
    (hgenuine : Genuine nodeHash wire) :
    Quarantined exempt selfPk start conversationId
      (effects ++ [.deleteWireNode conversationId nodeHash])
      { engine with
          pendingCache := { engine.pendingCache with
            wireNodes := engine.pendingCache.wireNodes.insert nodeHash (conversationId, wire) } }
      (store.removeWireNode nodeHash) where
  self := hcall.self
  own := hcall.own
  sealed := hcall.sealed.removeWireNode nodeHash
  trusts := by
    refine ⟨fun other node hget => ?_, fun other held hget => ?_⟩
    · obtain ⟨hhash, hunread⟩ := hcall.trusts.nodes other node hget
      exact ⟨hhash, fun hmem => hunread ⟨List.mem_of_mem_erase hmem.1, hmem.2⟩⟩
    · simp only [AssocMap.get_insert] at hget
      split at hget
      next heq =>
        cases hget
        rw [heq]
        exact ⟨.inl hgenuine, fun howns => absurd (hcall.self ▸ howns) hforeign⟩
      next => exact hcall.trusts.wires other held hget
  -- The wire form leaves the store and its effect is noted, so the rest waits as before.
  waiting other := by
    have hmem : other ∈ (store.removeWireNode nodeHash).opaqueNodes ↔
        other ≠ nodeHash ∧ other ∈ store.opaqueNodes :=
      hcall.sealed.wellFormed.opaqueNodup.mem_erase_iff
    rw [hmem, hcall.waiting, List.mem_append, List.mem_singleton, Effect.deleteWireNode.injEq,
      and_iff_right rfl]
    tauto
  wires other hkept := by
    rw [List.mem_append, List.mem_singleton, Effect.deleteWireNode.injEq, not_or] at hkept
    have hne : other ≠ nodeHash := fun heq => hkept.2 ⟨rfl, heq⟩
    exact (AssocMap.get_erase_of_ne _ hne).trans (hcall.wires other hkept.1)
  deletes written other hmem := by
    rcases List.mem_append.mp hmem with hmem | hmem
    · exact hcall.deletes written other hmem
    · rw [List.mem_singleton, Effect.deleteWireNode.injEq] at hmem
      exact hmem.1
  writes written node verified hmem := by
    rw [List.mem_append, List.mem_singleton, or_iff_left (nomatch ·)] at hmem
    exact fun hunread => hcall.writes written node verified hmem
      ⟨List.mem_of_mem_erase hunread.1, hunread.2⟩
  wired written other held hmem := by
    rw [List.mem_append, List.mem_singleton, or_iff_left (nomatch ·)] at hmem
    exact hcall.wired written other held hmem
  paired := hcall.paired.append (.of_unwired fun _ _ _ hmem => by simp at hmem)

theorem drop (nodeHash : NodeHash) :
    Quarantined exempt selfPk start conversationId effects
      { engine with
          pendingCache := { engine.pendingCache with
            wireNodes := engine.pendingCache.wireNodes.erase nodeHash } } store := by
  refine { hcall with self := hcall.self, own := hcall.own, trusts := ?_ }
  refine ⟨hcall.trusts.nodes, fun other held hget => ?_⟩
  exact hcall.trusts.wires other held (AssocMap.get_of_erase hget).2

end

end Quarantined

namespace World

variable {world : World}

/-- A part of a call keeps the opaque nodes apart and leaves the store alone. -/
def KeepsApart (exempt : NodeHash → Prop) (selfPk : PhysicalDevicePk) (start : InMemoryStore)
    (conversationId : ConversationId) (effects : List Effect) (world after : World) : Prop :=
  after.store = world.store ∧
    Quarantined exempt selfPk start conversationId effects after.engine world.store

theorem KeepsApart.quarantined {after : World}
    (hapart : KeepsApart exempt selfPk start conversationId effects world after) :
    Quarantined exempt selfPk start conversationId effects after.engine after.store := by
  rw [hapart.1]
  exact hapart.2

variable {node : MerkleNode}

theorem evaluate_apart (nowMs : Int)
    (hcall : Quarantined exempt selfPk start conversationId effects world.engine world.store)
    (hunread : ¬ world.store.Awaits exempt (hash node)) :
    KeepsApart exempt selfPk start conversationId
        (effects ++ Engine.evaluationEffects (world.evaluate conversationId node nowMs).1) world
        (world.evaluate conversationId node nowMs).2 ∧
      KeepsApart exempt selfPk start conversationId effects world
        (world.evaluate conversationId node nowMs).2 := by
  have htrace : Trace world.store nowMs (.evaluation node) world.engine _ _ :=
    world.engine.evaluateNode_trace world.store conversationId node nowMs rfl
  have horigin : ∀ other held, (Sources.evaluation node).evaluated other held →
      ¬ world.store.Awaits exempt (hash held) := by
    rintro other held rfl
    exact hunread
  have hlost := hcall.trace htrace.lost horigin
  rw [List.append_nil] at hlost
  exact ⟨⟨rfl, hcall.trace htrace horigin⟩, rfl, hlost⟩

theorem KeepsApart.report {after : World}
    (hapart : KeepsApart exempt selfPk start conversationId effects world after)
    (event : NodeEvent) :
    KeepsApart exempt selfPk start conversationId (effects ++ [.emitEvent event]) world after := by
  refine ⟨hapart.1, ?_⟩
  have htrace : Trace world.store 0 .calls after.engine [.emitEvent event] after.engine :=
    .quiet rfl fun effect hmem => by
      rw [List.mem_singleton.mp hmem]
      rfl
  exact hapart.2.trace htrace fun _ _ hevaluated => hevaluated.elim

variable {result : Except MerkleToxError (List Effect)}

/-- Its effects may be kept or lost. -/
theorem processNode_apart
    (hcall : Quarantined exempt selfPk start conversationId effects world.engine world.store)
    (hunread : ¬ world.store.Awaits exempt (hash node)) {after : World}
    (heq : world.processNode conversationId node nowMs = (result, after)) :
    KeepsApart exempt selfPk start conversationId (effects ++ returnedEffects result) world after ∧
      KeepsApart exempt selfPk start conversationId effects world after := by
  unfold processNode at heq
  split at heq
  · cases heq
    rw [returnedEffects, List.append_nil]
    exact ⟨⟨rfl, hcall⟩, rfl, hcall⟩
  · obtain ⟨hkept, hlost⟩ := evaluate_apart nowMs hcall hunread
    split at heq
    next hevaluated =>
      cases heq
      rw [hevaluated] at hlost
      rw [returnedEffects, List.append_nil]
      exact ⟨hlost, hlost⟩
    next hevaluated =>
      cases heq
      rw [hevaluated] at hkept hlost
      refine ⟨?_, hlost⟩
      rw [returnedEffects, ← List.append_assoc]
      exact hkept.report _

theorem KeepsApart.of_store {middle after : World} (hstore : middle.store = world.store)
    (hapart : KeepsApart exempt selfPk start conversationId effects middle after) :
    KeepsApart exempt selfPk start conversationId effects world after :=
  ⟨hapart.1.trans hstore, hstore ▸ hapart.2⟩

omit [Primitives] [WireCodec] in
theorem mem_verifiedWrites {written : List Effect} {entry : ConversationId × MerkleNode} :
    entry ∈ verifiedWrites written ↔ .writeStore entry.1 entry.2 true ∈ written := by
  unfold verifiedWrites
  rw [List.mem_filterMap]
  constructor
  · rintro ⟨effect, hmem, heq⟩
    split at heq
    next =>
      cases heq
      exact hmem
    next => cases heq
  · exact fun hmem => ⟨_, hmem, rfl⟩

theorem noteVerified_apart
    (hcall : Quarantined exempt selfPk start conversationId effects world.engine world.store)
    {written : List Effect} (hwritten : written ⊆ effects) :
    KeepsApart exempt selfPk start conversationId effects world (world.noteVerified written) := by
  refine ⟨rfl, hcall.note fun entry hmem => ?_⟩
  exact hcall.writes entry.1 entry.2 true (hwritten (mem_verifiedWrites.mp hmem))

theorem reverifyPass_apart (nowMs : Int) {nodes : List MerkleNode}
    (hcall : Quarantined exempt selfPk start conversationId effects world.engine world.store)
    (hunread : ∀ node ∈ nodes, ¬ world.store.Awaits exempt (hash node)) :
    KeepsApart exempt selfPk start conversationId
      (effects ++ (world.reverifyPass conversationId nowMs nodes).2.1) world
      (world.reverifyPass conversationId nowMs nodes).2.2 := by
  induction nodes generalizing world effects with
  | nil =>
      rw [reverifyPass, List.append_nil]
      exact ⟨rfl, hcall⟩
  | cons node rest ih =>
      have hnode := hunread node List.mem_cons_self
      have hrest := fun other hmem => hunread other (List.mem_cons_of_mem _ hmem)
      unfold reverifyPass
      split
      · exact ih hcall hrest
      · split
        next error after heq =>
          obtain ⟨-, hstore, hlost⟩ := processNode_apart hcall hnode heq
          rw [← hstore] at hlost hrest
          exact (ih hlost hrest).of_store hstore
        next kept after heq =>
          obtain ⟨⟨hstore, hkept⟩, -, hlost⟩ := processNode_apart hcall hnode heq
          rw [← hstore] at hkept hlost hrest
          split
          · exact (ih hlost hrest).of_store hstore
          · have hnoted := noteVerified_apart hkept (List.subset_append_right effects kept)
            rw [← List.append_assoc]
            exact (ih hnoted.2 hrest).of_store hstore

theorem reverifySpeculative_apart (nowMs : Int) (fuel : Nat)
    (hcall : Quarantined exempt selfPk start conversationId effects world.engine world.store) :
    KeepsApart exempt selfPk start conversationId
      (effects ++ (world.reverifySpeculative conversationId nowMs fuel).1) world
      (world.reverifySpeculative conversationId nowMs fuel).2 := by
  induction fuel generalizing world effects with
  | zero =>
      rw [reverifySpeculative, List.append_nil]
      exact ⟨rfl, hcall⟩
  | succ fuel ih =>
      have hspeculative : ∀ node ∈ world.overlay.getSpeculativeNodes,
          ¬ world.store.Awaits exempt (hash node) := hcall.speculative
      have hpass := reverifyPass_apart nowMs hcall hspeculative
      unfold reverifySpeculative
      split
      next kept after heq =>
        rw [heq] at hpass
        exact hpass
      next kept after heq =>
        rw [heq] at hpass
        obtain ⟨hstore, hkept⟩ := hpass
        simp only
        rw [← List.append_assoc]
        exact (ih (hstore ▸ hkept)).of_store hstore

theorem opaquePass_apart (nowMs : Int) (em : Established) {hashes : List NodeHash}
    (hcall : Quarantined exempt selfPk start conversationId effects world.engine world.store)
    (hforeign : ∀ nodeHash ∈ hashes, ¬ Owns selfPk nodeHash) :
    Quarantined exempt selfPk start conversationId
      (effects ++ (world.opaquePass conversationId nowMs em hashes).2.1)
      (world.opaquePass conversationId nowMs em hashes).2.2.engine
      (world.opaquePass conversationId nowMs em hashes).2.2.store := by
  induction hashes generalizing world effects with
  | nil =>
      rw [opaquePass, List.append_nil]
      exact hcall
  | cons nodeHash rest ih =>
      have hown := hforeign nodeHash List.mem_cons_self
      have hrest := fun other hmem => hforeign other (List.mem_cons_of_mem _ hmem)
      unfold opaquePass
      simp only
      split
      next => exact ih hcall hrest
      next wire hwire =>
        split
        next => exact ih hcall hrest
        next node hunpacked =>
          have hgenuine : Genuine nodeHash wire := by
            have hsealed := hcall.sealed
            rw [← hcall.self] at hsealed hown
            exact hsealed.genuine hcall.trusts hown hwire
          have hheld : Quarantined exempt selfPk start conversationId _
              (world.holdWire conversationId nodeHash wire).engine
              (world.holdWire conversationId nodeHash wire).store := hcall.hold hown hgenuine
          -- The node is the one that leaves the store.
          have hunread : ¬ (world.holdWire conversationId nodeHash wire).store.Awaits
              exempt (hash node) := by
            rw [hgenuine em _ node hunpacked]
            exact fun hmem => hcall.sealed.wellFormed.opaqueNodup.not_mem_erase hmem.1
          split
          next error after heq =>
            obtain ⟨-, hstore, hlost⟩ := processNode_apart hheld hunread heq
            rw [← hstore] at hlost
            have hdropped : Quarantined exempt selfPk start conversationId _
                (after.dropWire nodeHash).engine (after.dropWire nodeHash).store :=
              hlost.drop nodeHash
            have hlater := ih hdropped hrest
            simp only
            rw [List.append_cons]
            exact hlater
          next kept after heq =>
            obtain ⟨⟨hstore, hkept⟩, -⟩ := processNode_apart hheld hunread heq
            rw [← hstore] at hkept
            have hdropped : Quarantined exempt selfPk start conversationId _
                (after.dropWire nodeHash).engine (after.dropWire nodeHash).store :=
              hkept.drop nodeHash
            have hlater := ih hdropped hrest
            simp only
            rw [List.append_cons, ← List.append_assoc]
            exact hlater

theorem reverifyOpaque_apart (nowMs : Int) (fuel : Nat)
    (hcall : Quarantined exempt selfPk start conversationId effects world.engine world.store) :
    Quarantined exempt selfPk start conversationId
      (effects ++ (world.reverifyOpaque conversationId nowMs fuel).1)
      (world.reverifyOpaque conversationId nowMs fuel).2.engine
      (world.reverifyOpaque conversationId nowMs fuel).2.store := by
  induction fuel generalizing world effects with
  | zero =>
      rw [reverifyOpaque, List.append_nil]
      exact hcall
  | succ fuel ih =>
      have hforeign : ∀ nodeHash ∈ world.overlay.getOpaqueNodeHashes conversationId,
          ¬ Owns selfPk nodeHash := hcall.listed
      unfold reverifyOpaque
      split
      next =>
        rw [List.append_nil]
        exact hcall
      next em hestablished =>
        have hpass := opaquePass_apart nowMs em hcall hforeign
        split
        next kept after heq =>
          rw [heq] at hpass
          exact hpass
        next kept after heq =>
          rw [heq] at hpass
          simp only
          rw [← List.append_assoc]
          exact ih hpass

omit [WireCodec] in
theorem evaluate_stores {verdict : Engine.Verdict} {after : World}
    (heq : world.evaluate conversationId node nowMs = (.ok verdict, after)) :
    .writeStore conversationId node verdict.verified ∈ verdict.effects := by
  have hevaluated : (world.engine.evaluateNode world.store conversationId node nowMs).1 =
      .ok verdict := congrArg Prod.fst heq
  unfold Engine.evaluateNode Engine.conclude Engine.commit at hevaluated
  split at hevaluated
  · cases hevaluated
  · simp only at hevaluated
    split at hevaluated
    · cases hevaluated
    · split at hevaluated
      · cases hevaluated
      · cases hevaluated
        simp

/-- A node that is handled and was not stored is written. -/
theorem handleInternal_writes {fuel : Nat} {after : World}
    (heq : world.handleInternal conversationId node nowMs fuel = (.ok effects, after))
    (hnew : (world.overlay.isVerified (hash node) || world.overlay.hasNode (hash node)) = false) :
    ∃ verified, .writeStore conversationId node verified ∈ effects := by
  unfold handleInternal at heq
  rw [hnew, if_neg Bool.false_ne_true] at heq
  split at heq
  · cases heq
  next verdict evaluated hevaluated =>
    refine ⟨verdict.verified, ?_⟩
    have hwritten := evaluate_stores hevaluated
    split at heq
    cases heq
    exact List.mem_append_left _ (List.mem_append_left _ hwritten)

/-- A node that is handled is not opaque; its effects are those of the call. -/
theorem handleInternal_apart {fuel : Nat}
    (hcall : Quarantined exempt selfPk start conversationId [] world.engine world.store)
    (hunread : ¬ world.store.Awaits exempt (hash node)) {after : World}
    (heq : world.handleInternal conversationId node nowMs fuel = (result, after)) :
    Quarantined exempt selfPk start conversationId (returnedEffects result) after.engine
      after.store := by
  unfold handleInternal at heq
  split at heq
  · cases heq
    exact hcall
  · obtain ⟨hkept, hlost⟩ := evaluate_apart nowMs hcall hunread
    split at heq
    next hevaluated =>
      cases heq
      rw [hevaluated] at hlost
      exact hlost.quarantined
    next verdict evaluated hevaluated =>
      rw [hevaluated] at hkept
      have hjudged : Quarantined exempt selfPk start conversationId verdict.effects evaluated.engine
          evaluated.store := hkept.quarantined
      split at heq
      next reverified final hreverified =>
        cases heq
        have hfinal : Quarantined exempt selfPk start conversationId (verdict.effects ++ reverified)
            after.engine after.store := by
          split at hreverified
          · cases hreverified
            have hwaiting := reverifyOpaque_apart nowMs fuel hjudged
            rw [← List.append_assoc]
            exact (reverifySpeculative_apart nowMs fuel hwaiting).quarantined
          · cases hreverified
            rw [List.append_nil]
            exact hjudged
        exact (KeepsApart.report ⟨rfl, hfinal⟩ _).2

end World

end Calls

end MerkleTox.Core
