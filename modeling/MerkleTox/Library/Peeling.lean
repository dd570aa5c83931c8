import Mathlib.Data.Finset.Card
import Mathlib.Data.List.Dedup

/-! # Peeling

Elements lie in cells, each in some of them. An element that is alone in a cell can be peeled
off, which may leave others alone. Whatever the order, peeling ends with the same elements
left.
-/

namespace MerkleTox.Library.Peeling

universe uElement uCell

variable {Element : Type uElement} {Cell : Type uCell} [DecidableEq Element]
variable {places : Element → Cell → Prop} {remaining rest core : Finset Element}
variable {element : Element} {order : List Element}

/-- The element is in the cell, and no other one that remains is. -/
def Alone (places : Element → Cell → Prop) (remaining : Finset Element) (element : Element)
    (cell : Cell) : Prop :=
  element ∈ remaining ∧ places element cell ∧
    ∀ other ∈ remaining, places other cell → other = element

/-- Peeling the listed elements one after the other leaves `rest`. -/
inductive Peels (places : Element → Cell → Prop) :
    Finset Element → List Element → Finset Element → Prop
  | nil (remaining : Finset Element) : Peels places remaining [] remaining
  | snoc {remaining rest : Finset Element} {order : List Element} {element : Element}
      {cell : Cell} (hpeels : Peels places remaining order rest)
      (halone : Alone places rest element cell) :
      Peels places remaining (order ++ [element]) (rest.erase element)

/-- No element that remains is alone in a cell. -/
def Stuck (places : Element → Cell → Prop) (remaining : Finset Element) : Prop :=
  ∀ element cell, ¬ Alone places remaining element cell

/-- All elements can be peeled off, in some order. -/
def Peelable (places : Element → Cell → Prop) (elements : Finset Element) : Prop :=
  ∃ order, Peels places elements order ∅

omit [DecidableEq Element] in
theorem Alone.mono {cell : Cell} (halone : Alone places remaining element cell)
    (hsub : rest ⊆ remaining) (hmem : element ∈ rest) : Alone places rest element cell :=
  ⟨hmem, halone.2.1, fun other hother => halone.2.2 other (hsub hother)⟩

omit [DecidableEq Element] in
theorem stuck_empty : Stuck places ∅ := fun _ _ halone => absurd halone.1 (Finset.notMem_empty _)

namespace Peels

section

variable (hpeels : Peels places remaining order rest)
include hpeels

theorem rest_subset : rest ⊆ remaining := by
  induction hpeels with
  | nil => exact Finset.Subset.refl _
  | snoc _ _ ih => exact (Finset.erase_subset _ _).trans ih

/-- What was peeled and what is left make up the elements. -/
theorem mem_iff (other : Element) :
    other ∈ remaining ↔ other ∈ order ∨ other ∈ rest := by
  induction hpeels with
  | nil => simp
  | @snoc rest order element cell _ halone ih =>
      rw [ih, List.mem_append, List.mem_singleton, Finset.mem_erase]
      by_cases heq : other = element
      · subst heq
        simp [halone.1]
      · simp [heq]

theorem notMem :
    ∀ other ∈ order, other ∉ rest := by
  induction hpeels with
  | nil => exact fun _ hmem => absurd hmem List.not_mem_nil
  | snoc _ _ ih =>
      intro other hmem hrest
      rw [Finset.mem_erase] at hrest
      rcases List.mem_append.mp hmem with hmem | hmem
      · exact ih other hmem hrest.2
      · exact hrest.1 (List.mem_singleton.mp hmem)

theorem nodup : order.Nodup := by
  induction hpeels with
  | nil => exact List.nodup_nil
  | snoc hpeels halone ih =>
      rw [List.nodup_append]
      refine ⟨ih, List.nodup_singleton _, fun other hmem last hlast heq => ?_⟩
      rw [heq, List.mem_singleton.mp hlast] at hmem
      exact hpeels.notMem _ hmem halone.1

theorem card_eq :
    remaining.card = order.length + rest.card := by
  induction hpeels with
  | nil => exact (Nat.zero_add _).symm
  | snoc _ halone ih =>
      have hpositive := Finset.card_pos.mpr ⟨_, halone.1⟩
      rw [ih, List.length_append, List.length_singleton, Finset.card_erase_of_mem halone.1]
      omega

/-- Nothing of a set in which no element is alone is ever peeled off. -/
theorem stuck_subset (hstuck : Stuck places core) (hsub : core ⊆ remaining) : core ⊆ rest := by
  induction hpeels with
  | nil => exact hsub
  | snoc _ halone ih =>
      intro other hmem
      rw [Finset.mem_erase]
      refine ⟨fun heq => ?_, ih hmem⟩
      rw [heq] at hmem
      exact hstuck _ _ (halone.mono ih hmem)

/-- Peeling that gets stuck ends in the same set, whatever the order. -/
theorem stuck_unique {order' : List Element} {rest' : Finset Element} (hstuck : Stuck places rest)
    (hpeels' : Peels places remaining order' rest') (hstuck' : Stuck places rest') :
    rest = rest' :=
  Finset.Subset.antisymm (hpeels'.stuck_subset hstuck hpeels.rest_subset)
    (hpeels.stuck_subset hstuck' hpeels'.rest_subset)

end

end Peels

end MerkleTox.Library.Peeling
