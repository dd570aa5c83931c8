import Mathlib.Data.List.TakeWhile
import MerkleTox.Core.Overlay
import MerkleTox.Core.Reference

/-! # Effects that the store refuses

`MerkleToxNode` applies the effects of an engine call one after another and gives up at
the first write that fails. The writes of the call stay in the engine's overlay then, up
to the next call, which begins by clearing it.
-/

namespace MerkleTox.Core

open Library Proto

/-- An effect of a call; of the effects that concern neither nodes nor keys only matters
whether the store can refuse them. -/
inductive NodeEffect
  | core (effect : Effect)
  | writeBlobInfo
  | writeChunk
  | scheduleWakeup
  | nodeEquivocation

/-- The effects of a call, each with whether the store would refuse it. -/
abbrev Call := List (NodeEffect × Bool)

structure MerkleToxNode where
  store : InMemoryStore
  pendingCache : PendingCache

namespace NodeEffect

/-- Whether the effect is a write to the store. -/
def isWrite : NodeEffect → Bool
  | .core (.sendPacket ..) | .core (.emitEvent _) | .core (.historySnapshotNeeded _)
  | .scheduleWakeup | .nodeEquivocation => false
  | _ => true

/-- The status with which the effect writes a node. -/
def status [Primitives] (nodeHash : NodeHash) : NodeEffect → Option Bool
  | .core (.writeStore _ node verified) => if hash node = nodeHash then some verified else none
  | _ => none

end NodeEffect

section Processing

variable [Primitives]

def InMemoryStore.processEffect (store : InMemoryStore) : NodeEffect → InMemoryStore
  | .core effect => store.applyEffect effect
  | _ => store

/-- What the engine has noted in the overlay when it returns an effect. -/
def PendingCache.noteEffect (cache : PendingCache) : NodeEffect → PendingCache
  | .core (.writeStore conversationId node verified) =>
      cache.putNode conversationId node verified
  | .core (.updateHeads conversationId heads true) =>
      { cache with adminHeads := cache.adminHeads.insert conversationId heads }
  | .core (.updateHeads conversationId heads false) =>
      { cache with heads := cache.heads.insert conversationId heads }
  | _ => cache

namespace Call

def refuses (entry : NodeEffect × Bool) : Bool := entry.2 && entry.1.isWrite

/-- The effects before the first write that fails. -/
def processed (call : Call) : List NodeEffect :=
  (call.takeWhile fun entry => !refuses entry).map Prod.fst

/-- The first write that fails, and all after it. -/
def abandoned (call : Call) : List NodeEffect :=
  (call.dropWhile fun entry => !refuses entry).map Prod.fst

/-- The store when the effects before the first write that fails are applied. -/
def reached (call : Call) (store : InMemoryStore) : InMemoryStore :=
  call.processed.foldl InMemoryStore.processEffect store

/-- The statuses that a call writes for a node. -/
def statuses (call : Call) (nodeHash : NodeHash) : List Bool :=
  call.processed.filterMap (NodeEffect.status nodeHash)

end Call

namespace MerkleToxNode

/-- The overlay once the engine has returned the effects of a call; every call starts
with a cleared one. -/
def begin (node : MerkleToxNode) (call : Call) : MerkleToxNode :=
  { node with pendingCache := (call.map Prod.fst).foldl PendingCache.noteEffect .new }

/-- `process_effects`, with whether it succeeds. -/
def processEffects (node : MerkleToxNode) : Call → Bool × MerkleToxNode
  | [] => (true, { node with pendingCache := .new })
  | entry :: rest =>
      if Call.refuses entry then (false, node)
      else processEffects { node with store := node.store.processEffect entry.1 } rest

def step (node : MerkleToxNode) (call : Call) : MerkleToxNode :=
  ((node.begin call).processEffects call).2

def overlay (node : MerkleToxNode) : Overlay := ⟨node.store, node.pendingCache⟩

end MerkleToxNode

/-- The store has the nodes and the heads of an overlay. -/
structure Stored (store : InMemoryStore) (cache : PendingCache) : Prop where
  nodes : ∀ nodeHash node, cache.nodes.get nodeHash = some node →
    store.getNode nodeHash = some node
  heads : ∀ conversationId heads, cache.heads.get conversationId = some heads →
    store.getHeads conversationId = heads
  adminHeads : ∀ conversationId heads, cache.adminHeads.get conversationId = some heads →
    store.getAdminHeads conversationId = heads

/-- The store has the nodes, the heads and the verification marks of an overlay. -/
structure Present (store : InMemoryStore) (cache : PendingCache) : Prop
    extends Stored store cache where
  verified : ∀ nodeHash ∈ cache.verified, store.isVerified nodeHash = true

/-- Whenever a call clears the overlay, the store has what it held, and what the engine
reported before and during the call is reported after it; a node that the call itself writes
as speculative need not be verified any more. -/
structure KeepsWrites (node : MerkleToxNode) (call : Call) : Prop where
  atStart : Present node.store node.pendingCache
  atEnd : ((node.begin call).processEffects call).1 = true →
    Present (node.step call).store (node.begin call).pendingCache
  present : ∀ nodeHash, node.overlay.hasNode nodeHash = true ∨
    (node.begin call).overlay.hasNode nodeHash = true →
      (node.step call).overlay.hasNode nodeHash = true
  verified : ∀ nodeHash, node.overlay.isVerified nodeHash = true ∨
    (node.begin call).overlay.isVerified nodeHash = true → false ∉ call.statuses nodeHash →
      (node.step call).overlay.isVerified nodeHash = true

/-- When a write fails, the store has what the abandoned effects would bring; and a call that
verifies a node does not take that back. -/
structure Harmless (node : MerkleToxNode) (call : Call) : Prop where
  redundant : Present (call.reached node.store)
    (call.abandoned.foldl PendingCache.noteEffect .new)
  undemoted : ∀ nodeHash, true ∈ call.statuses nodeHash →
    (call.statuses nodeHash).getLast? = some true

/-! ## One effect -/

section Effect

variable {store : InMemoryStore} {cache : PendingCache}

omit [Primitives] in
theorem present_new (store : InMemoryStore) : Present store .new where
  nodes _ _ hget := nomatch hget
  heads _ _ hget := nomatch hget
  adminHeads _ _ hget := nomatch hget
  verified _ hmem := absurd hmem List.not_mem_nil

theorem isVerified_processEffect (store : InMemoryStore) (effect : NodeEffect)
    (nodeHash : NodeHash) :
    (store.processEffect effect).isVerified nodeHash =
      (effect.status nodeHash).getD (store.isVerified nodeHash) := by
  cases effect with
  | core effect =>
      cases effect with
      | writeStore conversationId node verified =>
          simp only [InMemoryStore.processEffect, InMemoryStore.applyEffect, NodeEffect.status,
            InMemoryStore.isVerified_putNode]
          by_cases heq : nodeHash = hash node
          · rw [if_pos heq, if_pos heq.symm, Option.getD_some]
          · rw [if_neg heq, if_neg (Ne.symm heq), Option.getD_none]
      | updateHeads conversationId heads isAdmin => cases isAdmin <;> rfl
      | _ => rfl
  | _ => rfl

/-- No effect removes a node. -/
theorem hasNode_processEffect (effect : NodeEffect) {nodeHash : NodeHash}
    (hhas : store.hasNode nodeHash = true) :
    (store.processEffect effect).hasNode nodeHash = true := by
  cases effect with
  | core effect =>
      cases effect with
      | writeStore conversationId node verified =>
          rw [InMemoryStore.hasNode_eq] at hhas ⊢
          simp only [InMemoryStore.processEffect, InMemoryStore.applyEffect,
            InMemoryStore.getNode_putNode]
          split
          · rfl
          · exact hhas
      | updateHeads conversationId heads isAdmin => cases isAdmin <;> exact hhas
      | _ => exact hhas
  | _ => exact hhas

/-- A write that is made in the store and noted in the overlay is stored. -/
theorem Stored.processEffect (h : Stored store cache) (effect : NodeEffect) :
    Stored (store.processEffect effect) (cache.noteEffect effect) := by
  cases effect with
  | core effect =>
      cases effect with
      | writeStore conversationId node verified =>
          have hnodes : ∀ nodeHash other,
              (cache.nodes.insert (hash node) node).get nodeHash = some other →
                (store.putNode node verified).getNode nodeHash = some other := by
            intro nodeHash other hget
            rw [AssocMap.get_insert] at hget
            rw [InMemoryStore.getNode_putNode]
            split
            next heq => rwa [if_pos heq] at hget
            next hne => exact h.nodes _ _ (by rwa [if_neg hne] at hget)
          cases verified with
          | false | true => exact ⟨hnodes, h.heads, h.adminHeads⟩
      | updateHeads conversationId heads isAdmin =>
          have hinsert : ∀ {kept stored : AssocMap ConversationId (List NodeHash)},
              (∀ other hashes, kept.get other = some hashes →
                (stored.get other).getD [] = hashes) →
              ∀ other hashes, (kept.insert conversationId heads).get other = some hashes →
                ((stored.insert conversationId heads).get other).getD [] = hashes := by
            intro kept stored hbefore other hashes hget
            rw [AssocMap.get_insert] at hget ⊢
            split
            next heq =>
              rw [if_pos heq] at hget
              exact Option.some.inj hget
            next hne =>
              rw [if_neg hne] at hget
              exact hbefore _ _ hget
          cases isAdmin with
          | true => exact ⟨h.nodes, h.heads, hinsert h.adminHeads⟩
          | false => exact ⟨h.nodes, hinsert h.heads, h.adminHeads⟩
      | _ => exact ⟨h.nodes, h.heads, h.adminHeads⟩
  | _ => exact ⟨h.nodes, h.heads, h.adminHeads⟩

/-- The marks of the overlay are those of the verified writes. -/
theorem mem_noteEffect (effect : NodeEffect) (nodeHash : NodeHash) :
    nodeHash ∈ (cache.noteEffect effect).verified ↔
      nodeHash ∈ cache.verified ∨ effect.status nodeHash = some true := by
  cases effect with
  | core effect =>
      cases effect with
      | writeStore conversationId node verified =>
          cases verified with
          | true =>
              refine mem_insertOnce.trans (or_congr_right ?_)
              simp [NodeEffect.status, eq_comm]
          | false => simp [PendingCache.noteEffect, PendingCache.putNode, NodeEffect.status]
      | updateHeads conversationId heads isAdmin =>
          cases isAdmin <;> simp [PendingCache.noteEffect, NodeEffect.status]
      | _ => simp [PendingCache.noteEffect, NodeEffect.status]
  | _ => simp [PendingCache.noteEffect, NodeEffect.status]

/-- An overlay that is made of another one and of later notes. -/
structure Layered (top below whole : PendingCache) : Prop where
  nodes : ∀ nodeHash, whole.nodes.get nodeHash =
    (top.nodes.get nodeHash).or (below.nodes.get nodeHash)
  heads : ∀ conversationId, whole.heads.get conversationId =
    (top.heads.get conversationId).or (below.heads.get conversationId)
  adminHeads : ∀ conversationId, whole.adminHeads.get conversationId =
    (top.adminHeads.get conversationId).or (below.adminHeads.get conversationId)
  verified : ∀ nodeHash, nodeHash ∈ whole.verified ↔
    nodeHash ∈ top.verified ∨ nodeHash ∈ below.verified

theorem Layered.noteEffect {top below whole : PendingCache} (h : Layered top below whole)
    (effect : NodeEffect) :
    Layered (top.noteEffect effect) below (whole.noteEffect effect) := by
  have hinsert : ∀ {Key Value : Type} [DecidableEq Key] {top below whole : AssocMap Key Value},
      (∀ key, whole.get key = (top.get key).or (below.get key)) → ∀ inserted value key,
        (whole.insert inserted value).get key =
          ((top.insert inserted value).get key).or (below.get key) := by
    intro Key Value _ top below whole hlayers inserted value key
    rw [AssocMap.get_insert, AssocMap.get_insert]
    split
    · rfl
    · exact hlayers key
  have hverified : ∀ nodeHash, nodeHash ∈ (whole.noteEffect effect).verified ↔
      nodeHash ∈ (top.noteEffect effect).verified ∨ nodeHash ∈ below.verified := by
    intro nodeHash
    rw [mem_noteEffect, mem_noteEffect, h.verified, or_right_comm]
  cases effect with
  | core effect =>
      cases effect with
      | writeStore conversationId node verified =>
          cases verified with
          | true | false => exact ⟨hinsert h.nodes _ _, h.heads, h.adminHeads, hverified⟩
      | updateHeads conversationId heads isAdmin =>
          cases isAdmin with
          | true => exact ⟨h.nodes, h.heads, hinsert h.adminHeads _ _, hverified⟩
          | false => exact ⟨h.nodes, hinsert h.heads _ _, h.adminHeads, hverified⟩
      | _ => exact ⟨h.nodes, h.heads, h.adminHeads, hverified⟩
  | _ => exact ⟨h.nodes, h.heads, h.adminHeads, hverified⟩

end Effect

/-! ## Lists of effects -/

section Effects

variable {store : InMemoryStore} {cache : PendingCache}

theorem layered_noteEffects (below : PendingCache) (effects : List NodeEffect) :
    Layered (effects.foldl PendingCache.noteEffect .new) below
      (effects.foldl PendingCache.noteEffect below) := by
  induction effects using List.reverseRecOn with
  | nil => exact ⟨fun _ => rfl, fun _ => rfl, fun _ => rfl, fun _ => by simp [PendingCache.new]⟩
  | append_singleton effects effect ih =>
      rw [List.foldl_append, List.foldl_append]
      exact ih.noteEffect effect

theorem stored_effects (store : InMemoryStore) (effects : List NodeEffect) :
    Stored (effects.foldl InMemoryStore.processEffect store)
      (effects.foldl PendingCache.noteEffect .new) := by
  induction effects using List.reverseRecOn with
  | nil => exact (present_new store).toStored
  | append_singleton effects effect ih =>
      rw [List.foldl_append, List.foldl_append]
      exact ih.processEffect effect

theorem mem_noteEffects (effects : List NodeEffect) (nodeHash : NodeHash) :
    nodeHash ∈ (effects.foldl PendingCache.noteEffect .new).verified ↔
      true ∈ effects.filterMap (NodeEffect.status nodeHash) := by
  induction effects using List.reverseRecOn with
  | nil => exact iff_of_false List.not_mem_nil List.not_mem_nil
  | append_singleton effects effect ih =>
      rw [List.foldl_append, List.foldl_cons, List.foldl_nil, mem_noteEffect, ih,
        List.filterMap_append, List.mem_append]
      simp

/-- The status of a node is the last one written. -/
theorem isVerified_effects (store : InMemoryStore) (effects : List NodeEffect)
    (nodeHash : NodeHash) :
    (effects.foldl InMemoryStore.processEffect store).isVerified nodeHash =
      (effects.filterMap (NodeEffect.status nodeHash)).getLast?.getD
        (store.isVerified nodeHash) := by
  induction effects generalizing store with
  | nil => rfl
  | cons effect rest ih =>
      rw [List.foldl_cons, ih, isVerified_processEffect, List.filterMap_cons]
      cases effect.status nodeHash with
      | none => rfl
      | some verified => rw [List.getLast?_cons, Option.getD_some, Option.getD_some]

theorem hasNode_effects (effects : List NodeEffect) {nodeHash : NodeHash}
    (hhas : store.hasNode nodeHash = true) :
    (effects.foldl InMemoryStore.processEffect store).hasNode nodeHash = true := by
  induction effects generalizing store with
  | nil => exact hhas
  | cons effect rest ih => exact ih (hasNode_processEffect effect hhas)

omit [Primitives] in
/-- A store that has both layers of an overlay has the overlay. -/
theorem Present.layered {top below whole : PendingCache} (hlayers : Layered top below whole)
    (htop : Present store top) (hbelow : Present store below) : Present store whole where
  nodes nodeHash node hget := by
    rw [hlayers.nodes, Option.or_eq_some_iff] at hget
    exact hget.elim (htop.nodes _ _) fun hget => hbelow.nodes _ _ hget.2
  heads conversationId heads hget := by
    rw [hlayers.heads, Option.or_eq_some_iff] at hget
    exact hget.elim (htop.heads _ _) fun hget => hbelow.heads _ _ hget.2
  adminHeads conversationId heads hget := by
    rw [hlayers.adminHeads, Option.or_eq_some_iff] at hget
    exact hget.elim (htop.adminHeads _ _) fun hget => hbelow.adminHeads _ _ hget.2
  verified nodeHash hmem :=
    ((hlayers.verified _).mp hmem).elim (htop.verified _) (hbelow.verified _)

omit [Primitives] in
theorem Present.top {top below whole : PendingCache} (hlayers : Layered top below whole)
    (hwhole : Present store whole) : Present store top where
  nodes nodeHash node hget := hwhole.nodes _ _ (by rw [hlayers.nodes, hget]; rfl)
  heads conversationId heads hget := hwhole.heads _ _ (by rw [hlayers.heads, hget]; rfl)
  adminHeads conversationId heads hget :=
    hwhole.adminHeads _ _ (by rw [hlayers.adminHeads, hget]; rfl)
  verified nodeHash hmem := hwhole.verified _ ((hlayers.verified _).mpr (.inl hmem))

end Effects

/-! ## Calls -/

namespace MerkleToxNode

variable {node : MerkleToxNode} {call : Call}

theorem processEffects_eq (node : MerkleToxNode) (call : Call) :
    node.processEffects call =
      (call.abandoned.isEmpty,
        ⟨call.reached node.store, if call.abandoned.isEmpty then .new else node.pendingCache⟩) := by
  induction call generalizing node with
  | nil => rfl
  | cons entry rest ih =>
      rw [processEffects, ih]
      unfold Call.reached Call.abandoned Call.processed
      rw [List.dropWhile_cons, List.takeWhile_cons]
      cases Call.refuses entry <;> rfl

theorem step_eq (node : MerkleToxNode) (call : Call) :
    node.step call = ⟨call.reached node.store,
      if call.abandoned.isEmpty then .new else (node.begin call).pendingCache⟩ := by
  rw [step, processEffects_eq]
  rfl

theorem begin_layered (node : MerkleToxNode) (call : Call) :
    Layered (call.abandoned.foldl PendingCache.noteEffect .new)
      (call.processed.foldl PendingCache.noteEffect .new) (node.begin call).pendingCache := by
  have hsplit : call.map Prod.fst = call.processed ++ call.abandoned := by
    rw [Call.processed, Call.abandoned, ← List.map_append, List.takeWhile_append_dropWhile]
  rw [begin, hsplit, List.foldl_append]
  exact layered_noteEffects _ _

theorem isVerified_reached (call : Call) (store : InMemoryStore) (nodeHash : NodeHash) :
    (call.reached store).isVerified nodeHash =
      (call.statuses nodeHash).getLast?.getD (store.isVerified nodeHash) :=
  isVerified_effects _ _ _

/-- After a harmless call the store has all that the call brought. -/
theorem present_begin (h : Harmless node call) :
    Present (call.reached node.store) (node.begin call).pendingCache := by
  refine h.redundant.layered (node.begin_layered call) ⟨stored_effects _ _, ?_⟩
  intro nodeHash hmem
  rw [isVerified_reached, h.undemoted nodeHash ((mem_noteEffects _ _).mp hmem)]
  rfl

omit [Primitives] in
theorem overlay_isVerified (node : MerkleToxNode) (nodeHash : NodeHash) :
    node.overlay.isVerified nodeHash = true ↔
      nodeHash ∈ node.pendingCache.verified ∨ node.store.isVerified nodeHash = true := by
  rw [overlay, Overlay.isVerified, Bool.or_eq_true, List.contains_iff_mem]

omit [Primitives] in
theorem overlay_hasNode (node : MerkleToxNode) (nodeHash : NodeHash) :
    node.overlay.hasNode nodeHash = true ↔
      (node.pendingCache.nodes.get nodeHash).isSome = true ∨
        node.store.hasNode nodeHash = true := by
  rw [overlay, Overlay.hasNode, Bool.or_eq_true, AssocMap.contains_eq]

omit [Primitives] in
/-- What the store has of an overlay, it reports by itself. -/
theorem hasNode_of_present {node : MerkleToxNode} {store : InMemoryStore}
    (hpresent : Present store node.pendingCache) {nodeHash : NodeHash}
    (hstore : node.store.hasNode nodeHash = true → store.hasNode nodeHash = true)
    (hhas : node.overlay.hasNode nodeHash = true) : store.hasNode nodeHash = true := by
  rcases (overlay_hasNode _ _).mp hhas with hcached | hstored
  · obtain ⟨cached, hget⟩ := Option.isSome_iff_exists.mp hcached
    rw [InMemoryStore.hasNode_eq, hpresent.nodes _ _ hget]
    rfl
  · exact hstore hstored

/-- A call keeps the writes and leaves nothing behind exactly if nothing was left behind
before it and it is harmless. -/
theorem keepsWrites_iff (node : MerkleToxNode) (call : Call) :
    (KeepsWrites node call ∧ Present (node.step call).store (node.step call).pendingCache) ↔
      (Present node.store node.pendingCache ∧ Harmless node call) := by
  have hlayers := node.begin_layered call
  have hstore : (node.step call).store = call.reached node.store := by rw [step_eq]
  constructor
  · rintro ⟨hkeeps, hafter⟩
    refine ⟨hkeeps.atStart, ?_, fun nodeHash hmem => ?_⟩
    · by_cases hempty : call.abandoned.isEmpty = true
      · rw [List.isEmpty_iff.mp hempty]
        exact present_new _
      · rw [step_eq, if_neg hempty] at hafter
        exact hafter.top hlayers
    -- A verification of the call is held in the cache until the store has it.
    · have hheld : nodeHash ∈ (node.begin call).pendingCache.verified :=
        (hlayers.verified _).mpr (.inr ((mem_noteEffects _ _).mpr hmem))
      have hverified : (call.reached node.store).isVerified nodeHash = true := by
        rw [← hstore]
        by_cases hempty : call.abandoned.isEmpty = true
        · exact (hkeeps.atEnd (by rw [processEffects_eq, hempty])).verified nodeHash hheld
        · refine hafter.verified nodeHash ?_
          rw [step_eq, if_neg hempty]
          exact hheld
      have hlast := List.getLast?_eq_some_getLast (List.ne_nil_of_mem hmem)
      rw [isVerified_reached, hlast, Option.getD_some] at hverified
      rw [hlast, hverified]
  · rintro ⟨hbefore, hharmless⟩
    have hbegin := present_begin hharmless
    have hafter : Present (node.step call).store (node.step call).pendingCache := by
      rw [step_eq]
      dsimp only
      split
      · exact present_new _
      · exact hbegin
    refine ⟨⟨hbefore, fun _ => hstore ▸ hbegin, fun nodeHash hreported => ?_,
      fun nodeHash hreported hkeeps => ?_⟩, hafter⟩
    · have hkept : node.store.hasNode nodeHash = true →
          (call.reached node.store).hasNode nodeHash = true := hasNode_effects _
      refine (overlay_hasNode _ _).mpr (.inr (hstore ▸ ?_))
      rcases hreported with hold | hnew
      · exact hkept (hasNode_of_present hbefore id hold)
      · exact hasNode_of_present hbegin hkept hnew
    · have hkept : node.store.isVerified nodeHash = true →
          (call.reached node.store).isVerified nodeHash = true := by
        intro hverified
        rw [isVerified_reached, hverified]
        cases hlast : (call.statuses nodeHash).getLast? with
        | none => rfl
        | some last =>
            cases last with
            | true => rfl
            | false => exact absurd (List.mem_of_getLast? hlast) hkeeps
      refine (overlay_isVerified _ _).mpr (.inr (hstore ▸ ?_))
      rcases hreported with hold | hnew
      · exact hkept (((overlay_isVerified _ _).mp hold).elim (hbefore.verified _) id)
      · exact ((overlay_isVerified _ _).mp hnew).elim (hbegin.verified _) hkept

/-! ## Runs -/

theorem keepsWrites_run_iff (node : MerkleToxNode) (calls : List Call) :
    RunMeets step KeepsWrites node (calls ++ [[]]) ↔
      Present node.store node.pendingCache ∧ RunMeets step Harmless node calls := by
  induction calls generalizing node with
  | nil =>
      have hharmless : Harmless node [] := by
        exact ⟨present_new _, fun nodeHash hmem => absurd hmem List.not_mem_nil⟩
      have hnothing : Present (node.step []).store (node.step []).pendingCache := present_new _
      have hiff := keepsWrites_iff node []
      rw [List.nil_append]
      constructor
      · exact fun h => ⟨(hiff.mp ⟨h.1, hnothing⟩).1, trivial⟩
      · exact fun h => ⟨(hiff.mpr ⟨h.1, hharmless⟩).1, trivial⟩
  | cons call rest ih =>
      rw [List.cons_append, RunMeets, RunMeets, ih, ← and_assoc, keepsWrites_iff, and_assoc]

/-- No write is lost in a run, up to the next call after it, exactly if every call of the
run is harmless. -/
theorem writes_kept_iff (store : InMemoryStore) (calls : List Call) :
    RunMeets step KeepsWrites ⟨store, .new⟩ (calls ++ [[]]) ↔
      RunMeets step Harmless ⟨store, .new⟩ calls := by
  rw [keepsWrites_run_iff, and_iff_right (present_new store)]

end MerkleToxNode

end Processing

namespace FailedEffects

open Reference

/-- The write of a node fails, and the next call clears the overlay that held it. -/
theorem failed_write_lost :
    ¬ RunMeets MerkleToxNode.step KeepsWrites ⟨.new, .new⟩
      [[(.core (.writeStore room genesis true), true)], []] := by
  rintro ⟨-, hnext, -⟩
  have hheld : ((MerkleToxNode.mk .new .new).step
      [(.core (.writeStore room genesis true), true)]).overlay.hasNode (hash genesis) = true := by
    decide +kernel
  have hlost : (((MerkleToxNode.mk .new .new).step
      [(.core (.writeStore room genesis true), true)]).step []).overlay.hasNode
        (hash genesis) = false := by decide +kernel
  rw [hnext.present _ (.inl hheld)] at hlost
  cases hlost

end FailedEffects

end MerkleTox.Core
