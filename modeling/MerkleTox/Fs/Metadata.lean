import MerkleTox.Fs.Compaction

/-! # What the indexes say of a node

The rank and the type of a node are answered from the index of the journal or of a pack,
without its data. In every state of the store they are those of the node that is read back.
-/

namespace MerkleTox.Fs

open Library MerkleTox.Core

variable [IndexSearch] [Primitives]

/-- The answers about a hash are those of a node with this hash, or there are none. -/
def Tells (nodeHash : NodeHash) (node : Option MerkleNode) (rank : Option Nat)
    (nodeType : Option NodeType) (verified : Bool) : Prop :=
  node.all (fun node => hash node = nodeHash) = true ∧
    rank = node.map MerkleNode.topologicalRank ∧ nodeType = node.map MerkleNode.nodeType ∧
      (verified = true → node.isSome = true)

namespace ConversationContext

variable {context : ConversationContext} {nodeHash : NodeHash}

/-- The node in a sound pack is the one that its record describes. -/
theorem packedNode_described (hsound : ∀ pack ∈ context.packs, pack.Sound) {record : IndexRecord}
    (hpacked : context.packed nodeHash = some record) :
    ∃ entry, context.packedNode nodeHash = some entry.2 ∧ record.Describes entry ∧
      hash entry.2 = nodeHash := by
  obtain ⟨before, pack, after, hpacks, hlookup, hnone⟩ := List.findSome?_eq_some_iff.mp hpacked
  have hmem : pack ∈ context.packs := by
    rw [hpacks]
    exact List.mem_append_right _ List.mem_cons_self
  obtain ⟨entry, -, hdata, hdescribes, hhash⟩ := (hsound pack hmem).getNodeData hlookup
  refine ⟨entry, List.findSome?_eq_some_iff.mpr ⟨before, pack, after, hpacks, ?_, ?_⟩,
    hdescribes, hhash⟩
  · rw [hdata]
    simp [hhash]
  · intro earlier hearlier
    rw [Pack.getNodeData, hnone earlier hearlier]
    rfl

theorem WellFormed.tells {clock : Nat} (h : context.WellFormed clock) (nodeHash : NodeHash) :
    Tells nodeHash (context.getNode nodeHash) (context.getRank nodeHash)
      (context.getNodeType nodeHash) (context.isVerified nodeHash) := by
  cases hget : context.volatileNodes.get nodeHash with
  | some info =>
      obtain ⟨_, node, -, hnode, hhash, hdescribes⟩ := h.getNode_of_volatile hget
      rw [hnode, getRank, getNodeType, look, look, hget]
      exact ⟨decide_eq_true hhash, congrArg some hdescribes.rank,
        congrArg some hdescribes.nodeType, fun _ => rfl⟩
  | none =>
      cases hpacked : context.packed nodeHash with
      | some record =>
          obtain ⟨entry, hnode, hdescribes, hhash⟩ := packedNode_described h.sound hpacked
          rw [getNode, getRank, getNodeType, look, look, hget, hnode, hpacked]
          exact ⟨decide_eq_true hhash, congrArg some hdescribes.rank,
            congrArg some hdescribes.nodeType, fun _ => rfl⟩
      | none =>
          have hnode := packedNode_of_packed_none hpacked
          rw [getNode, getRank, getNodeType, isVerified, look, look, look, hget, hnode, hpacked]
          exact ⟨rfl, rfl, rfl, fun hverified => by cases hverified⟩

end ConversationContext

end MerkleTox.Fs
