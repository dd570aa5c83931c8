import Mathlib.Data.Set.Card
import Mathlib.Order.Bounds.Basic
import MerkleTox.Library.Reachability

/-! # Graphs without cycles

A graph whose nodes may be absent has no cycle when no present node is reached from its own
successors. In a finite one, what is reached from the successors of a node is strictly less
than what is reached from the node, so a recursion along the edges comes to an end.
-/

namespace MerkleTox.Library

universe uNode

variable {Node : Type uNode} {next : Node → Option (List Node)}
variable {starts succs : List Node} {node last : Node}

/-- What is reached, by the first node on the way. -/
theorem reaches_iff : Reaches next starts last ↔
    ∃ node ∈ starts, ∃ succs, next node = some succs ∧
      (last = node ∨ Reaches next succs last) := by
  constructor
  · intro h
    induction h with
    | start hmem hpresent =>
        obtain ⟨succs, hnext⟩ := Option.isSome_iff_exists.mp hpresent
        exact ⟨_, hmem, succs, hnext, .inl rfl⟩
    | step _ hnext hmem hpresent ih =>
        obtain ⟨first, hfirst, succs, hsuccs, rfl | hreaches⟩ := ih
        · obtain rfl := Option.some.inj (hsuccs.symm.trans hnext)
          exact ⟨_, hfirst, _, hsuccs, .inr (.start hmem hpresent)⟩
        · exact ⟨first, hfirst, succs, hsuccs, .inr (.step hreaches hnext hmem hpresent)⟩
  · rintro ⟨node, hmem, succs, hnext, rfl | hreaches⟩
    · exact .start hmem (hnext ▸ rfl)
    · exact Reaches.trans (.start hmem (hnext ▸ rfl)) hnext hreaches

/-- No present node is reached from its own successors. -/
def Acyclic (next : Node → Option (List Node)) : Prop :=
  ∀ node succs, next node = some succs → ¬ Reaches next succs node

namespace Acyclic

/-- A measure that falls along every edge between present nodes. -/
theorem of_measure (measure : Node → Nat)
    (hfalls : ∀ node succs, next node = some succs → ∀ succ ∈ succs, (next succ).isSome →
      measure succ < measure node) : Acyclic next := by
  intro node succs hnext hcycle
  have hbelow : ∀ {last}, Reaches next succs last → measure last < measure node := by
    intro last hreaches
    induction hreaches with
    | start hmem hpresent => exact hfalls node succs hnext _ hmem hpresent
    | step _ hstep hmem hpresent ih => exact (hfalls _ _ hstep _ hmem hpresent).trans ih
  exact Nat.lt_irrefl _ (hbelow hcycle)

theorem ncard_lt [Finite Node] (hacyclic : Acyclic next) (hmem : node ∈ starts)
    (hnext : next node = some succs) :
    {last | Reaches next succs last}.ncard < {last | Reaches next starts last}.ncard := by
  have hstart : Reaches next starts node := .start hmem (hnext ▸ rfl)
  refine Set.ncard_lt_ncard ⟨fun last hlast => hstart.trans hnext hlast, fun hall => ?_⟩
  exact hacyclic node succs hnext (hall hstart)

end Acyclic

end MerkleTox.Library
