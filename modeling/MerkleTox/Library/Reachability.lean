import Mathlib.Data.List.Basic

/-! # Depth-first search with answers from before

A graph whose nodes may be absent: `next` gives the successors of a node that is
present. A search collects the nodes of interest that can be reached through present
nodes. It may take the answer for a node from an earlier search instead of entering it.
-/

namespace MerkleTox.Library

universe uNode

variable {Node : Type uNode} {next : Node → Option (List Node)}

/-- A node that is present and can be reached from the starting nodes. -/
inductive Reaches (next : Node → Option (List Node)) (starts : List Node) : Node → Prop
  | start {node : Node} (hmem : node ∈ starts) (hpresent : (next node).isSome) :
      Reaches next starts node
  | step {node succ : Node} {succs : List Node} (hreaches : Reaches next starts node)
      (hnext : next node = some succs) (hmem : succ ∈ succs) (hpresent : (next succ).isSome) :
      Reaches next starts succ

namespace Reaches

variable {starts more : List Node} {node last : Node} {succs : List Node}

/-- What is reached from the successors of a reached node is reached. -/
theorem trans (h : Reaches next starts node) (hnext : next node = some succs)
    (hlast : Reaches next succs last) : Reaches next starts last := by
  induction hlast with
  | start hmem hpresent => exact .step h hnext hmem hpresent
  | step _ hnext' hmem hpresent ih => exact .step ih hnext' hmem hpresent

theorem isSome (h : Reaches next starts node) : (next node).isSome := by
  cases h with
  | start hmem hpresent => exact hpresent
  | step _ _ _ hpresent => exact hpresent

end Reaches

/-- A search in progress: the stack of nodes to enter, the nodes visited, and those
of interest found so far. -/
structure Searching (next : Node → Option (List Node)) (wanted : Node → Prop)
    (starts stack visited found : List Node) : Prop where
  sound : ∀ node ∈ found, Reaches next starts node ∧ wanted node
  stacked : ∀ node ∈ stack, (next node).isSome → Reaches next starts node
  starting : ∀ node ∈ starts, node ∈ visited ∨ node ∈ stack
  collected : ∀ node ∈ visited, (next node).isSome → wanted node → node ∈ found
  entered : ∀ node ∈ visited, ∀ succs, next node = some succs →
    (∀ last, Reaches next succs last → wanted last → last ∈ found) ∨
      ∀ succ ∈ succs, succ ∈ visited ∨ succ ∈ stack

namespace Searching

variable {wanted : Node → Prop} {starts stack visited found after : List Node} {node : Node}

theorem begin (starts : List Node) : Searching next wanted starts starts.reverse [] [] where
  sound := nofun
  stacked _ hmem hpresent := .start (List.mem_reverse.mp hmem) hpresent
  starting _ hmem := .inr (List.mem_reverse.mpr hmem)
  collected := nofun
  entered := nofun

section

variable (h : Searching next wanted starts (node :: stack) visited found)
include h

/-- A node that was visited before. -/
theorem skip (hvisited : node ∈ visited) : Searching next wanted starts stack visited found := by
  have hpop : ∀ other, other ∈ visited ∨ other ∈ node :: stack →
      other ∈ visited ∨ other ∈ stack := by
    rintro other (hmem | hmem)
    · exact .inl hmem
    · rcases List.mem_cons.mp hmem with rfl | hrest
      · exact .inl hvisited
      · exact .inr hrest
  exact
    { sound := h.sound
      stacked := fun other hmem => h.stacked other (List.mem_cons_of_mem _ hmem)
      starting := fun other hmem => hpop other (h.starting other hmem)
      collected := h.collected
      entered := fun other hmem succs hnext =>
        (h.entered other hmem succs hnext).imp_right fun hrest succ hsucc =>
          hpop succ (hrest succ hsucc) }

/-- A new node is visited: it is absent, its answer is known, or its successors are
put on the stack. -/
theorem visit (pushed : List Node) (hfound : ∀ other ∈ found, other ∈ after)
    (hnew : ∀ other ∈ after, other ∈ found ∨ Reaches next starts other ∧ wanted other)
    (hnode : (next node).isSome → wanted node → node ∈ after)
    (hsuccs : ∀ succs, next node = some succs →
      (∀ last, Reaches next succs last → wanted last → last ∈ after) ∨
        ∀ succ ∈ succs, succ ∈ pushed)
    (hpushed : ∀ succ ∈ pushed, ∃ succs, next node = some succs ∧ succ ∈ succs) :
    Searching next wanted starts (pushed ++ stack) (node :: visited) after := by
  have hpop : ∀ other, other ∈ visited ∨ other ∈ node :: stack →
      other ∈ node :: visited ∨ other ∈ pushed ++ stack := by
    rintro other (hmem | hmem)
    · exact .inl (List.mem_cons_of_mem _ hmem)
    · rcases List.mem_cons.mp hmem with rfl | hrest
      · exact .inl List.mem_cons_self
      · exact .inr (List.mem_append_right _ hrest)
  refine
    { sound := fun other hmem => (hnew other hmem).elim (h.sound other) id
      stacked := ?_
      starting := fun other hmem => hpop other (h.starting other hmem)
      collected := ?_
      entered := ?_ }
  · intro other hmem hpresent
    rcases List.mem_append.mp hmem with hother | hrest
    · obtain ⟨succs, hnext, hsucc⟩ := hpushed other hother
      have hreached := h.stacked node List.mem_cons_self (hnext ▸ rfl)
      exact .step hreached hnext hsucc hpresent
    · exact h.stacked other (List.mem_cons_of_mem _ hrest) hpresent
  · intro other hmem hpresent hwanted
    rcases List.mem_cons.mp hmem with rfl | hold
    · exact hnode hpresent hwanted
    · exact hfound other (h.collected other hold hpresent hwanted)
  · intro other hmem succs hnext
    rcases List.mem_cons.mp hmem with rfl | hold
    · exact (hsuccs succs hnext).imp_right fun hall succ hsucc =>
        .inr (List.mem_append_left _ (hall succ hsucc))
    · rcases h.entered other hold succs hnext with hknown | hrest
      · exact .inl fun last hlast hwanted => hfound last (hknown last hlast hwanted)
      · exact .inr fun succ hsucc => hpop succ (hrest succ hsucc)

theorem absent (hnone : next node = none) :
    Searching next wanted starts stack (node :: visited) found := by
  refine h.visit [] (fun _ hmem => hmem) (fun _ hmem => .inl hmem) ?_ ?_ nofun
  · intro hpresent
    rw [hnone] at hpresent
    cases hpresent
  · intro succs hnext
    rw [hnone] at hnext
    cases hnext

/-- The answer for a node is known from before. -/
theorem answer {succs known : List Node} (hnext : next node = some succs)
    (hknown : ∀ last, last ∈ known ↔ Reaches next succs last ∧ wanted last)
    (hafter : ∀ last, last ∈ after ↔ last ∈ found ∨ (last = node ∧ wanted node) ∨ last ∈ known) :
    Searching next wanted starts stack (node :: visited) after := by
  have hreached := h.stacked node List.mem_cons_self (hnext ▸ rfl)
  refine h.visit [] (fun last hmem => (hafter last).mpr (.inl hmem)) ?_ ?_ ?_ nofun
  · intro last hmem
    rcases (hafter last).mp hmem with hold | ⟨rfl, hwanted⟩ | hmem
    · exact .inl hold
    · exact .inr ⟨hreached, hwanted⟩
    · obtain ⟨hlast, hwanted⟩ := (hknown last).mp hmem
      exact .inr ⟨hreached.trans hnext hlast, hwanted⟩
  · exact fun _ hwanted => (hafter node).mpr (.inr (.inl ⟨rfl, hwanted⟩))
  · intro succs' hnext'
    obtain rfl := Option.some.inj (hnext.symm.trans hnext')
    exact .inl fun last hlast hwanted =>
      (hafter last).mpr (.inr (.inr ((hknown last).mpr ⟨hlast, hwanted⟩)))

/-- A node is entered: its successors come next. -/
theorem enter {succs : List Node} (hnext : next node = some succs)
    (hafter : ∀ last, last ∈ after ↔ last ∈ found ∨ (last = node ∧ wanted node)) :
    Searching next wanted starts (succs.reverse ++ stack) (node :: visited) after := by
  have hreached := h.stacked node List.mem_cons_self (hnext ▸ rfl)
  refine h.visit succs.reverse (fun last hmem => (hafter last).mpr (.inl hmem)) ?_ ?_ ?_ ?_
  · intro last hmem
    rcases (hafter last).mp hmem with hold | ⟨rfl, hwanted⟩
    · exact .inl hold
    · exact .inr ⟨hreached, hwanted⟩
  · exact fun _ hwanted => (hafter node).mpr (.inr ⟨rfl, hwanted⟩)
  · intro succs' hnext'
    obtain rfl := Option.some.inj (hnext.symm.trans hnext')
    exact .inr fun succ hmem => List.mem_reverse.mpr hmem
  · exact fun succ hmem => ⟨succs, hnext, List.mem_reverse.mp hmem⟩

end

/-- A finished search has found exactly the nodes of interest that are reached. -/
theorem complete (h : Searching next wanted starts [] visited found) :
    node ∈ found ↔ Reaches next starts node ∧ wanted node := by
  refine ⟨h.sound node, ?_⟩
  rintro ⟨hreaches, hwanted⟩
  have hdone : node ∈ visited ∨ (wanted node → node ∈ found) ∧
      ∀ succs, next node = some succs →
        ∀ last, Reaches next succs last → wanted last → last ∈ found := by
    clear hwanted
    induction hreaches with
    | start hmem _ => exact .inl ((h.starting _ hmem).resolve_right List.not_mem_nil)
    | @step middle succ succs hreaches hnext hmem hpresent ih =>
        have hbelow : (∀ last, Reaches next succs last → wanted last → last ∈ found) ∨
            succ ∈ visited := by
          rcases ih with hvisited | ⟨-, hknown⟩
          · exact (h.entered middle hvisited succs hnext).imp_right fun hall =>
              (hall succ hmem).resolve_right List.not_mem_nil
          · exact .inl (hknown succs hnext)
        rcases hbelow with hknown | hvisited
        · refine .inr ⟨hknown succ (.start hmem hpresent), fun succs' hnext' last hlast => ?_⟩
          exact hknown last (Reaches.trans (.start hmem hpresent) hnext' hlast)
        · exact .inl hvisited
  rcases hdone with hvisited | ⟨hfound, -⟩
  · exact h.collected node hvisited hreaches.isSome hwanted
  · exact hfound hwanted

end Searching

end MerkleTox.Library
