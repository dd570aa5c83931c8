import Mathlib.Data.List.Induction
import Mathlib.Data.Set.Insert
import Mathlib.Logic.Relation

/-! # Frontiers of growing histories

A history is a list of nodes, each with a key and the keys of its parents. Its frontier are
the keys that no other node of the history has as a parent. A history that grows by nodes
whose keys no earlier node mentions keeps its frontier by dropping the parents of the new node
and adding its key; every node of such a history leads to the frontier, along its children.
-/

namespace MerkleTox.Library.History

universe uKey uNode

variable {Key : Type uKey} {Node : Type uNode}
variable (key : Node → Key) (parents : Node → List Key)

/-- Drop the parents of a node and add the node. -/
def advance (heads : Set Key) (node : Node) : Set Key :=
  {head | head ∈ heads ∧ head ∉ parents node} ∪ {key node}

def frontier (nodes : List Node) : Set Key :=
  {head | (∃ node ∈ nodes, key node = head) ∧
    ∀ node ∈ nodes, key node ≠ head → head ∉ parents node}

/-- Every node is there once, and before the nodes that have it as a parent. -/
def Ordered (nodes : List Node) : Prop :=
  nodes.Pairwise fun earlier later => key later ≠ key earlier ∧ key later ∉ parents earlier

/-- One key is that of a parent of a node with the other. -/
def ParentOf (nodes : List Node) (parent child : Key) : Prop :=
  ∃ node ∈ nodes, key node = child ∧ parent ∈ parents node

variable {key parents} {nodes : List Node} {node : Node}

theorem Ordered.of_push (hordered : Ordered key parents (nodes ++ [node])) :
    Ordered key parents nodes ∧
      ∀ earlier ∈ nodes, key node ≠ key earlier ∧ key node ∉ parents earlier := by
  obtain ⟨hnodes, -, hcross⟩ := List.pairwise_append.mp hordered
  exact ⟨hnodes, fun earlier hmem => hcross earlier hmem node (List.mem_singleton.mpr rfl)⟩

theorem frontier_nil : frontier key parents [] = ∅ :=
  Set.eq_empty_iff_forall_notMem.mpr fun _ ⟨⟨_, hmem, _⟩, _⟩ => absurd hmem List.not_mem_nil

theorem frontier_push (hordered : Ordered key parents (nodes ++ [node])) :
    frontier key parents (nodes ++ [node]) =
      advance key parents (frontier key parents nodes) node := by
  obtain ⟨-, hfresh⟩ := hordered.of_push
  ext head
  simp only [frontier, advance, List.mem_append, List.mem_singleton, Set.mem_union,
    Set.mem_ofPred_eq, Set.mem_singleton_iff]
  constructor
  · rintro ⟨⟨other, hmem | rfl, rfl⟩, hchildless⟩
    · refine .inl ⟨⟨⟨other, hmem, rfl⟩, fun child hchild => ?_⟩, ?_⟩
      · exact hchildless child (.inl hchild)
      · exact hchildless node (.inr rfl) (hfresh other hmem).1
    · exact .inr rfl
  · rintro (⟨⟨⟨other, hmem, rfl⟩, hchildless⟩, hkept⟩ | rfl)
    · refine ⟨⟨other, .inl hmem, rfl⟩, ?_⟩
      rintro child (hchild | rfl)
      · exact hchildless child hchild
      · exact fun _ => hkept
    · refine ⟨⟨node, .inr rfl, rfl⟩, ?_⟩
      rintro child (hchild | rfl) hother
      · exact (hfresh child hchild).2
      · exact absurd rfl hother

/-- Advancing from node to node keeps the frontier. -/
theorem foldl_advance (hordered : Ordered key parents nodes) :
    nodes.foldl (advance key parents) ∅ = frontier key parents nodes := by
  induction nodes using List.reverseRecOn with
  | nil => exact frontier_nil.symm
  | append_singleton nodes node ih =>
      rw [List.foldl_append, ih hordered.of_push.1, frontier_push hordered]
      rfl

/-- Every node is a head or an ancestor of one. -/
theorem exists_head (hordered : Ordered key parents nodes) (hmem : node ∈ nodes) :
    ∃ head ∈ frontier key parents nodes,
      Relation.ReflTransGen (ParentOf key parents nodes) (key node) head := by
  induction nodes using List.reverseRecOn generalizing node with
  | nil => cases hmem
  | append_singleton nodes last ih =>
      have hlast : last ∈ nodes ++ [last] := List.mem_append_right _ (List.mem_singleton.mpr rfl)
      have hhead : key last ∈ frontier key parents (nodes ++ [last]) := by
        rw [frontier_push hordered]
        exact .inr rfl
      rcases List.mem_append.mp hmem with hmem | hmem
      · obtain ⟨head, hfrontier, hpath⟩ := ih hordered.of_push.1 hmem
        have hwider : Relation.ReflTransGen (ParentOf key parents (nodes ++ [last])) (key node)
            head := hpath.lift id fun _ _ ⟨child, hchild, hlink⟩ =>
          ⟨child, List.mem_append_left _ hchild, hlink⟩
        -- A head that the last node takes as a parent leads on to that node.
        by_cases htaken : head ∈ parents last
        · exact ⟨key last, hhead, hwider.tail ⟨last, hlast, rfl, htaken⟩⟩
        · refine ⟨head, ?_, hwider⟩
          rw [frontier_push hordered]
          exact .inl ⟨hfrontier, htaken⟩
      · rw [List.mem_singleton.mp hmem]
        exact ⟨key last, hhead, .refl⟩

/-- A head is an ancestor of no other node. -/
theorem eq_of_frontier {head descendant : Key} (hhead : head ∈ frontier key parents nodes)
    (hpath : Relation.ReflTransGen (ParentOf key parents nodes) head descendant) :
    descendant = head := by
  induction hpath with
  | refl => rfl
  | tail _ hlink ih =>
      obtain ⟨child, hchild, rfl, hparent⟩ := hlink
      by_contra hother
      exact hhead.2 child hchild hother (ih ▸ hparent)

end MerkleTox.Library.History
