import MerkleTox.Fs.Reference
import MerkleTox.Fs.Store
import MerkleTox.Library.Acyclic
import Mathlib.Data.BitVec

/-! # Effective time stamps

A node is presented at the latest time stamp among itself and its ancestors. The recursion of
the source goes from a node to each of its parents that the store holds; in a store without
cycles it comes to an end, however the ancestors are shared and whichever are missing, and
what it returns depends on the ancestors that it can reach alone.
-/

namespace MerkleTox.Fs

open Library Proto MerkleTox.Core

variable {latest : MerkleNode → Int} {parents : List NodeHash}

/-- `effective_timestamp` as it calls itself: it returns once it has returned for every parent
that the store holds. The first argument bounds the depth of the calls. -/
def runEffectiveTimestamp (lookup : NodeHash → Option MerkleNode) :
    Nat → MerkleNode → Option Int
  | 0, _ => none
  | fuel + 1, node =>
      node.parents.foldlM (fun tEff parentHash =>
        match lookup parentHash with
        | some parent => (runEffectiveTimestamp lookup fuel parent).map (max tEff)
        | none => some tEff) node.networkTimestamp

section EffectiveTimes

variable (lookup : NodeHash → Option MerkleNode)

/-- The call for a node ends with a time: every bound on the depth from some one on is enough. -/
def ReturnsTime (node : MerkleNode) (time : Int) : Prop :=
  ∃ depth, ∀ fuel, depth ≤ fuel → runEffectiveTimestamp lookup fuel node = some time

def parentsIn (nodeHash : NodeHash) : Option (List NodeHash) :=
  (lookup nodeHash).map MerkleNode.parents

/-- The ancestors of a node in the store, each reached through ancestors in the store. -/
def ancestorsIn (node : MerkleNode) : Set NodeHash :=
  {nodeHash | Reaches (parentsIn lookup) node.parents nodeHash}

/-- The time stamps of a node and of its ancestors in the store. -/
def timesUpTo (node : MerkleNode) : Set Int :=
  {time | time = node.networkTimestamp ∨ ∃ nodeHash ∈ ancestorsIn lookup node,
    ∃ ancestor, lookup nodeHash = some ancestor ∧ time = ancestor.networkTimestamp}

variable {lookup} {node : MerkleNode}

instance : Finite NodeHash :=
  .of_injective (fun nodeHash => BitVec.equivFin nodeHash.bytes) fun left right heq => by
    cases left
    cases right
    exact congrArg _ (BitVec.equivFin.injective heq)

/-- The time stamps up to a node are its own and those up to each of its parents. -/
theorem timesUpTo_eq : timesUpTo lookup node = {node.networkTimestamp} ∪
    {time | ∃ parentHash ∈ node.parents, ∃ parent, lookup parentHash = some parent ∧
      time ∈ timesUpTo lookup parent} := by
  have hparent : ∀ {nodeHash parents}, parentsIn lookup nodeHash = some parents →
      ∃ parent, lookup nodeHash = some parent ∧ parent.parents = parents :=
    fun h => Option.map_eq_some_iff.mp h
  ext time
  constructor
  · rintro (rfl | ⟨nodeHash, hreaches, ancestor, hget, rfl⟩)
    · exact .inl rfl
    · obtain ⟨first, hmem, parents, hparents, hrest⟩ := reaches_iff.mp hreaches
      obtain ⟨parent, hfirst, rfl⟩ := hparent hparents
      refine .inr ⟨first, hmem, parent, hfirst, ?_⟩
      rcases hrest with rfl | hrest
      · obtain rfl := Option.some.inj (hget.symm.trans hfirst)
        exact .inl rfl
      · exact .inr ⟨nodeHash, hrest, ancestor, hget, rfl⟩
  · rintro (rfl | ⟨parentHash, hmem, parent, hget, htime⟩)
    · exact .inl rfl
    · have hparents : parentsIn lookup parentHash = some parent.parents := by
        rw [parentsIn, hget]
        rfl
      rcases htime with rfl | ⟨nodeHash, hreaches, ancestor, hancestor, rfl⟩
      · exact .inr ⟨parentHash, reaches_iff.mpr ⟨_, hmem, _, hparents, .inl rfl⟩, parent, hget,
          rfl⟩
      · exact .inr ⟨nodeHash, reaches_iff.mpr ⟨_, hmem, _, hparents, .inr hreaches⟩, ancestor,
          hancestor, rfl⟩

/-- The loop over the parents takes the latest of what they stand for. -/
theorem isGreatest_foldl {times : MerkleNode → Set Int} (hlatest : ∀ parentHash ∈ parents, ∀ parent,
      lookup parentHash = some parent → IsGreatest (times parent) (latest parent)) {seen : Set Int}
    {tEff : Int} (hseen : IsGreatest seen tEff) :
    IsGreatest (seen ∪ {time | ∃ parentHash ∈ parents, ∃ parent,
        lookup parentHash = some parent ∧ time ∈ times parent})
      (parents.foldl (fun tEff parentHash =>
        match lookup parentHash with
        | some parent => max tEff (latest parent)
        | none => tEff) tEff) := by
  induction parents generalizing seen tEff with
  | nil => simpa using hseen
  | cons parentHash rest ih =>
      have hrest := fun other hmem => hlatest other (List.mem_cons_of_mem _ hmem)
      rw [List.foldl_cons]
      cases hget : lookup parentHash with
      | none => simpa [hget] using ih hrest hseen
      | some parent =>
          have hfirst := hseen.union (hlatest parentHash List.mem_cons_self parent hget)
          have hall := ih hrest hfirst
          simpa [hget, Set.union_assoc, Set.ofPred_or] using hall

/-- The loop returns if the call for every parent in the store does. -/
theorem foldlM_eq {run : MerkleNode → Option Int} (hruns : ∀ parentHash ∈ parents, ∀ parent,
      lookup parentHash = some parent → run parent = some (latest parent)) (tEff : Int) :
    parents.foldlM (fun tEff parentHash =>
        match lookup parentHash with
        | some parent => (run parent).map (max tEff)
        | none => some tEff) tEff =
      some (parents.foldl (fun tEff parentHash =>
        match lookup parentHash with
        | some parent => max tEff (latest parent)
        | none => tEff) tEff) := by
  induction parents generalizing tEff with
  | nil => rfl
  | cons parentHash rest ih =>
      have hrest := fun other hmem => hruns other (List.mem_cons_of_mem _ hmem)
      rw [List.foldlM_cons, List.foldl_cons]
      cases hget : lookup parentHash with
      | none => exact ih hrest tEff
      | some parent =>
          simp only [hruns parentHash List.mem_cons_self parent hget, Option.map_some]
          exact ih hrest _

section Acyclic

variable (hacyclic : Acyclic (parentsIn lookup))

include hacyclic

/-- A parent in the store has fewer ancestors there. -/
theorem ncard_ancestorsIn_lt {parentHash : NodeHash} {parent : MerkleNode}
    (hmem : parentHash ∈ node.parents) (hget : lookup parentHash = some parent) :
    (ancestorsIn lookup parent).ncard < (ancestorsIn lookup node).ncard := by
  have hparents : parentsIn lookup parentHash = some parent.parents := by
    rw [parentsIn, hget]
    rfl
  exact hacyclic.ncard_lt hmem hparents

/-- Calls that may go deeper than there are ancestors return the latest time. -/
theorem runEffectiveTimestamp_isGreatest {fuel : Nat}
    (hfuel : (ancestorsIn lookup node).ncard < fuel) :
    ∃ time, runEffectiveTimestamp lookup fuel node = some time ∧
      IsGreatest (timesUpTo lookup node) time := by
  induction fuel generalizing node with
  | zero => exact absurd hfuel (Nat.not_lt_zero _)
  | succ fuel ih =>
      let latest := fun parent => (runEffectiveTimestamp lookup fuel parent).getD 0
      have hparents : ∀ parentHash ∈ node.parents, ∀ parent, lookup parentHash = some parent →
          runEffectiveTimestamp lookup fuel parent = some (latest parent) ∧
            IsGreatest (timesUpTo lookup parent) (latest parent) := by
        intro parentHash hmem parent hget
        have hless := ncard_ancestorsIn_lt hacyclic hmem hget
        obtain ⟨time, hrun, hgreatest⟩ := ih (Nat.lt_of_lt_of_le hless (Nat.le_of_lt_succ hfuel))
        have htime : latest parent = time := by
          simp only [latest, hrun, Option.getD_some]
        rw [htime]
        exact ⟨hrun, hgreatest⟩
      have hall := isGreatest_foldl (fun parentHash hmem parent hget =>
        (hparents parentHash hmem parent hget).2) (isGreatest_singleton (a := node.networkTimestamp))
      rw [← timesUpTo_eq] at hall
      exact ⟨_, foldlM_eq (fun parentHash hmem parent hget =>
        (hparents parentHash hmem parent hget).1) node.networkTimestamp, hall⟩

/-- The recursion cut off at a depth that no chain of ancestors exceeds. -/
theorem effectiveTimestamp_isGreatest {fuel : Nat}
    (hfuel : (ancestorsIn lookup node).ncard ≤ fuel) :
    IsGreatest (timesUpTo lookup node) (effectiveTimestamp lookup fuel node) := by
  induction fuel generalizing node with
  | zero =>
      have hnone : ∀ parentHash ∈ node.parents, ∀ parent, lookup parentHash ≠ some parent := by
        intro parentHash hmem parent hget
        have hless := ncard_ancestorsIn_lt hacyclic hmem hget
        omega
      rw [timesUpTo_eq]
      refine ⟨.inl rfl, ?_⟩
      rintro time (rfl | ⟨parentHash, hmem, parent, hget, -⟩)
      · exact le_rfl
      · exact absurd hget (hnone parentHash hmem parent)
  | succ fuel ih =>
      rw [timesUpTo_eq]
      refine isGreatest_foldl (fun parentHash hmem parent hget => ih ?_) isGreatest_singleton
      have hless := ncard_ancestorsIn_lt hacyclic hmem hget
      omega

/-- The call for a node returns the latest time stamp among the node and its ancestors in the
store, which is no earlier than what the call for any of its parents there returns. -/
theorem effectiveTimestamp_returns (node : MerkleNode) :
    ∃ time, ReturnsTime lookup node time ∧ IsGreatest (timesUpTo lookup node) time ∧
      ∀ parentHash ∈ node.parents, ∀ parent, lookup parentHash = some parent →
        ∃ earlier ≤ time, ReturnsTime lookup parent earlier := by
  have hreturns : ∀ node, ∃ time, ReturnsTime lookup node time ∧
      IsGreatest (timesUpTo lookup node) time := by
    intro node
    obtain ⟨time, -, htime⟩ := runEffectiveTimestamp_isGreatest hacyclic
      (Nat.lt_succ_self (ancestorsIn lookup node).ncard)
    refine ⟨time, ⟨(ancestorsIn lookup node).ncard + 1, fun fuel hfuel => ?_⟩, htime⟩
    obtain ⟨other, hrun, hother⟩ := runEffectiveTimestamp_isGreatest hacyclic hfuel
    rw [hrun, hother.unique htime]
  obtain ⟨time, hnode, htime⟩ := hreturns node
  refine ⟨time, hnode, htime, fun parentHash hmem parent hget => ?_⟩
  obtain ⟨earlier, hparent, hearlier⟩ := hreturns parent
  refine ⟨earlier, htime.2 ?_, hparent⟩
  rw [timesUpTo_eq]
  exact .inr ⟨parentHash, hmem, parent, hget, hearlier.1⟩

end Acyclic

end EffectiveTimes

namespace Reference

/-- A node at a time, with the given parents. -/
def dated (networkTimestamp : Int) (parents : List NodeHash) : MerkleNode :=
  { Core.Reference.genesis with parents, networkTimestamp }

/-- Two nodes over one root, one of which also names a parent that is missing. -/
def diamond (nodeHash : NodeHash) : Option MerkleNode :=
  if nodeHash = ⟨1⟩ then some (dated 50 [])
  else if nodeHash = ⟨2⟩ then some (dated 20 [⟨1⟩, ⟨9⟩])
  else if nodeHash = ⟨3⟩ then some (dated 30 [⟨1⟩])
  else none

theorem acyclic_diamond : Acyclic (parentsIn diamond) := by
  refine .of_measure (fun nodeHash => nodeHash.bytes.toNat) fun nodeHash parents hnext => ?_
  unfold parentsIn diamond at hnext
  split at hnext
  · cases hnext
    exact fun _ hmem => absurd hmem List.not_mem_nil
  · split at hnext
    next heq =>
      cases hnext
      subst heq
      decide
    · split at hnext
      next heq =>
        cases hnext
        subst heq
        decide
      · cases hnext

theorem diamond_returns : ∃ time, ReturnsTime diamond (dated 10 [⟨2⟩, ⟨3⟩]) time ∧
    IsGreatest (timesUpTo diamond (dated 10 [⟨2⟩, ⟨3⟩])) time ∧
    ∀ parentHash ∈ (dated 10 [⟨2⟩, ⟨3⟩]).parents, ∀ parent, diamond parentHash = some parent →
      ∃ earlier ≤ time, ReturnsTime diamond parent earlier :=
  effectiveTimestamp_returns acyclic_diamond (dated 10 [⟨2⟩, ⟨3⟩])

end Reference

/-- The time that the store orders a node by is its effective time stamp. -/
theorem FsStore.effectiveTimestamp_isGreatest [IndexSearch] [Primitives] (store : FsStore)
    (hacyclic : Acyclic (parentsIn store.getNode)) (node : MerkleNode) :
    IsGreatest (timesUpTo store.getNode node)
      (effectiveTimestamp store.getNode store.nodeToConv.size node) := by
  refine Fs.effectiveTimestamp_isGreatest hacyclic ?_
  have hindexed : ancestorsIn store.getNode node ⊆ store.nodeToConv.keys.toFinset := by
    intro nodeHash hreaches
    have hpresent : (parentsIn store.getNode nodeHash).isSome := Reaches.isSome hreaches
    rw [parentsIn, Option.isSome_map, Option.isSome_iff_exists] at hpresent
    obtain ⟨ancestor, hget⟩ := hpresent
    rw [FsStore.getNode, FsStore.locate, Option.bind_assoc] at hget
    obtain ⟨conversationId, hlocated, -⟩ := Option.bind_eq_some_iff.mp hget
    rw [List.coe_toFinset, Set.mem_ofPred_eq, ← AssocMap.contains_iff_mem_keys,
      AssocMap.contains_eq, hlocated, Option.isSome_some]
  calc (ancestorsIn store.getNode node).ncard
      ≤ (store.nodeToConv.keys.toFinset : Set NodeHash).ncard := Set.ncard_le_ncard hindexed
    _ = store.nodeToConv.keys.toFinset.card := Set.ncard_coe_finset _
    _ ≤ store.nodeToConv.keys.length := List.toFinset_card_le _
    _ = store.nodeToConv.size := List.length_map _

end MerkleTox.Fs
