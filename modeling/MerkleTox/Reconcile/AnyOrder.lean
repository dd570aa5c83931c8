import MerkleTox.Reconcile.Linear

/-! # Peeling in any order

`decode` keeps the pure cells on a stack. Here any pure cell may be peeled next, and the
decoding of the code is one of these: its stack holds every pure cell at all times, and its
rounds suffice.
-/

namespace MerkleTox.Reconcile

open MerkleTox.Core

variable {sketch : IbltSketch} {holds : Decoding → Prop}

namespace IbltSketch

variable [IbltHash]

/-! ## The stack -/

theorem lt_of_isPure {index : Nat} (hpure : sketch.isPure index = true) :
    index < sketch.cells.length := by
  by_contra hindex
  rw [isPure, List.getElem?_eq_none (Nat.le_of_not_lt hindex)] at hpure
  cases hpure

/-- Taking an element out pushes the cells of it that are pure, and at most these. -/
theorem clearElement_snd (id : NodeHash) (peeled : IbltCell) (pureCells : List Nat)
    {indices : List Nat} (hnodup : indices.Nodup)
    (hbound : ∀ index ∈ indices, index < sketch.cells.length) :
    pureCells ⊆ (clearElement id peeled indices (sketch, pureCells)).2 ∧
      (clearElement id peeled indices (sketch, pureCells)).2.length ≤
        pureCells.length + indices.length ∧
      ∀ index ∈ indices,
        (clearElement id peeled indices (sketch, pureCells)).1.isPure index = true →
        index ∈ (clearElement id peeled indices (sketch, pureCells)).2 := by
  induction indices generalizing sketch pureCells with
  | nil => exact ⟨List.Subset.refl _, Nat.le_refl _, fun _ hmem => absurd hmem List.not_mem_nil⟩
  | cons first rest ih =>
      obtain ⟨hfirst, hrest⟩ := List.nodup_cons.mp hnodup
      obtain ⟨cleared, hcleared⟩ : ∃ cleared, cleared =
          sketch.modifyCell (fun cell => ⟨cell.count - peeled.count, cell.idSum ^^^ id.bytes,
            cell.hashSum ^^^ peeled.hashSum⟩) first := ⟨_, rfl⟩
      obtain ⟨pushed, hpushed⟩ : ∃ pushed, pushed =
          if cleared.isPure first then first :: pureCells else pureCells := ⟨_, rfl⟩
      have hstep : clearElement id peeled (first :: rest) (sketch, pureCells) =
          clearElement id peeled rest (cleared, pushed) := by
        rw [hpushed, hcleared]
        rfl
      have hsub : pureCells ⊆ pushed := by
        rw [hpushed]
        split
        · exact List.subset_cons_self _ _
        · exact List.Subset.refl _
      have hlength : pushed.length ≤ pureCells.length + 1 := by
        rw [hpushed]
        split
        · exact Nat.le_refl _
        · exact Nat.le_succ _
      have hcells : cleared.cells.length = sketch.cells.length := by
        rw [hcleared]
        exact congrArg Prod.fst (sketch.shape_modifyCell _ first)
      have hbelow : ∀ index ∈ rest, index < cleared.cells.length := by
        intro index hmem
        rw [hcells]
        exact hbound index (List.mem_cons_of_mem _ hmem)
      obtain ⟨hkeeps, hpushes, hpure⟩ := ih pushed hrest hbelow
      rw [hstep]
      refine ⟨List.Subset.trans hsub hkeeps, ?_, fun index hmem hindex => ?_⟩
      · rw [List.length_cons]
        omega
      · rcases List.mem_cons.mp hmem with rfl | hmem
        · -- The cells cleared later are other ones, so this one was already pure when noted.
          have hsame : cleared.isPure index = true := by
            rw [← hindex]
            refine isPure_congr ?_ ?_
            · rw [clearElement_fst]
              exact (shape_foldl_modifyCell _ _).symm
            · rw [clearElement_fst, cellAt_foldl_modifyCell _ hrest hbelow, if_neg hfirst]
          refine hkeeps ?_
          rw [hpushed, if_pos hsame]
          exact List.mem_cons_self
        · exact hpure index hmem hindex

namespace Decoding

/-- All pure cells are on the stack. -/
def OnStack (decoding : Decoding) : Prop :=
  ∀ index, decoding.sketch.isPure index = true → index ∈ decoding.pureCells

/-- How many elements are found so far. -/
def found (decoding : Decoding) : Nat := decoding.inSelf.length + decoding.inOther.length

theorem onStack_start (sketch : IbltSketch) : (start sketch).OnStack := by
  intro index hpure
  rw [start, List.mem_reverse, List.mem_filter, List.mem_range]
  exact ⟨lt_of_isPure hpure, hpure⟩

omit [IbltHash] in
theorem found_find (decoding : Decoding) (cell : IbltCell) :
    (decoding.find cell).found = decoding.found + 1 := by
  unfold find
  split
  · simp only [found, List.length_append, List.length_singleton]
    omega
  · simp only [found, List.length_append, List.length_singleton]
    omega

variable {decoding next : Decoding} {cell : IbltCell}

theorem found_peel (hok : decoding.peel cell = .ok next) :
    next.found = decoding.found + 1 ∧ next.found ≤ dMax decoding.sketch := by
  obtain ⟨hself, hother, hlimit, -⟩ := peel_ok hok
  refine ⟨?_, hlimit⟩
  rw [← found_find decoding cell, found, hself, hother]
  rfl

/-- Peeling adds a few cells to the stack, and those of the cells it changed that are pure. -/
theorem OnStack.peel (hstack : ∀ index, decoding.sketch.isPure index = true →
      index ∈ decoding.pureCells ∨ index ∈ decoding.sketch.getIndices ⟨cell.idSum⟩)
    (hok : decoding.peel cell = .ok next) :
    next.OnStack ∧ next.pureCells.length ≤ decoding.pureCells.length + indexCount := by
  obtain ⟨-, -, -, hcleared⟩ := peel_ok hok
  have hsketch := congrArg Prod.fst hcleared
  have hpushed := congrArg Prod.snd hcleared
  simp only at hsketch hpushed
  obtain ⟨hkeeps, hlength, hpure⟩ := clearElement_snd ⟨cell.idSum⟩ cell decoding.pureCells
    (decoding.sketch.nodup_getIndices ⟨cell.idSum⟩) (fun _ hmem => lt_of_mem_getIndices hmem)
  rw [← hsketch] at hpure
  rw [← hpushed] at hkeeps hlength hpure
  refine ⟨fun index hindex => ?_,
    hlength.trans (Nat.add_le_add_left (length_getIndices_le _ _) _)⟩
  by_cases hmem : index ∈ decoding.sketch.getIndices ⟨cell.idSum⟩
  · exact hpure index hmem hindex
  · -- A cell that was not changed is as pure as before.
    have hsame : decoding.sketch.isPure index = true := by
      rw [← hindex]
      refine isPure_congr (shape_peel hok).symm ?_
      rw [hsketch, clearElement_fst, cellAt_foldl_modifyCell _
        (decoding.sketch.nodup_getIndices _) (fun _ hmem => lt_of_mem_getIndices hmem),
        if_neg hmem]
    rcases hstack index hsame with hindex | hindex
    · exact hkeeps hindex
    · exact absurd hindex hmem

/-! ## All orders -/

/-- Pure cells are peeled in some order until none is left or there are too many elements.
What is on the stack and how the rounds are counted play no part in it. -/
inductive AnyOrder : Decoding →
    Except ReconciliationError (List NodeHash × List NodeHash × DecodingStats) → Prop
  | stop {decoding : Decoding} (hstuck : ∀ index, decoding.sketch.isPure index = false) :
      AnyOrder decoding decoding.finish
  | abort {decoding : Decoding} {index : Nat} {error : ReconciliationError}
      (hpure : decoding.sketch.isPure index = true)
      (herror : decoding.peel (decoding.sketch.cellAt index) = .error error) :
      AnyOrder decoding (.error error)
  | peel {decoding next : Decoding} {index : Nat}
      {result : Except ReconciliationError (List NodeHash × List NodeHash × DecodingStats)}
      (hpure : decoding.sketch.isPure index = true)
      (hok : decoding.peel (decoding.sketch.cellAt index) = .ok next)
      (hrest : AnyOrder next result) : AnyOrder decoding result
  | note {decoding : Decoding} (pureCells : List Nat) (stats : DecodingStats)
      {result : Except ReconciliationError (List NodeHash × List NodeHash × DecodingStats)}
      (hrest : AnyOrder { decoding with
        pureCells := pureCells
        stats := stats } result) : AnyOrder decoding result

/-- What holds of a decoding at all times and puts each pure cell among those of the element
it names. A peer could send a sketch in which a pure cell is not. -/
structure Placed (holds : Decoding → Prop) : Prop where
  note : ∀ decoding pureCells stats, holds decoding → holds { decoding with
    pureCells := pureCells
    stats := stats }
  peel : ∀ decoding next index, holds decoding → decoding.sketch.isPure index = true →
    decoding.peel (decoding.sketch.cellAt index) = .ok next → holds next
  placed : ∀ decoding index, holds decoding → decoding.sketch.isPure index = true →
    index ∈ decoding.sketch.getIndices ⟨(decoding.sketch.cellAt index).idSum⟩

/-- The loop of the code peels in some order and ends with no cell left to peel. -/
theorem anyOrder_peelAll (hplaced : Placed holds) {fuel : Nat} (hholds : holds decoding)
    (hstack : decoding.OnStack) (hfound : decoding.found ≤ dMax decoding.sketch)
    (hfuel : decoding.pureCells.length +
      indexCount * (dMax decoding.sketch - decoding.found) < fuel) :
    (∀ error, decoding.peelAll fuel = .error error → AnyOrder decoding (.error error)) ∧
      ∀ final, decoding.peelAll fuel = .ok final → AnyOrder decoding final.finish := by
  -- By induction on the fuel: a pop either drops an impure cell, which shortens the list, or
  -- peels an element, which the size of the sketch bounds.
  induction fuel generalizing decoding with
  | zero => exact absurd hfuel (Nat.not_lt_zero _)
  | succ fuel ih =>
      unfold peelAll
      split
      next hempty =>
        refine ⟨fun _ herror => (by cases herror), fun _ hok => ?_⟩
        cases hok
        -- The list is empty and every pure cell is on it, so no cell is pure.
        refine .stop fun index => ?_
        by_contra hpure
        rw [Bool.not_eq_false] at hpure
        have hmem := hstack index hpure
        rw [hempty] at hmem
        exact List.not_mem_nil hmem
      next index rest hcons =>
        rw [hcons, List.length_cons] at hfuel
        obtain ⟨popped, hpopped⟩ : ∃ popped, popped = { decoding with
            pureCells := rest
            stats := { decoding.stats with iterations := decoding.stats.iterations + 1 } } :=
          ⟨_, rfl⟩
        have hsketch : popped.sketch = decoding.sketch := by rw [hpopped]
        have hrest : popped.pureCells = rest := by rw [hpopped]
        have hcount : popped.found = decoding.found := by
          rw [hpopped]
          rfl
        have hpoppedHolds : holds popped := by
          rw [hpopped]
          exact hplaced.note decoding _ _ hholds
        have hnote : ∀ result, AnyOrder popped result → AnyOrder decoding result := by
          intro result horder
          rw [hpopped] at horder
          exact .note _ _ horder
        rw [← hpopped]
        simp only
        split
        next hpure =>
          cases hpeel : popped.peel ((popped.sketch.cells[index]?).getD 0) with
          | error error =>
              refine ⟨fun other herror => ?_, fun final hok => by cases hok⟩
              cases herror
              exact hnote _ (.abort hpure hpeel)
          | ok next =>
              -- The popped cell is the only one that may be missing from the list, and it lies
              -- among the cells that peeling its element revisits.
              have hstacked : ∀ other, popped.sketch.isPure other = true →
                  other ∈ popped.pureCells ∨
                    other ∈ popped.sketch.getIndices ⟨(popped.sketch.cellAt index).idSum⟩ := by
                intro other hother
                have hmem := hstack other (hsketch ▸ hother)
                rw [hcons] at hmem
                rcases List.mem_cons.mp hmem with rfl | hmem
                · exact .inr (hplaced.placed popped other hpoppedHolds hother)
                · exact .inl (hrest ▸ hmem)
              obtain ⟨hnext, hlength⟩ := OnStack.peel hstacked hpeel
              obtain ⟨hmore, hlimit⟩ := found_peel hpeel
              have hsize : dMax next.sketch = dMax decoding.sketch := by
                have hcells := congrArg Prod.fst (shape_peel hpeel)
                simp only [shape, hsketch] at hcells
                rw [dMax, dMax, hcells]
              rw [hrest] at hlength
              rw [hsketch] at hlimit
              obtain ⟨herror, hok⟩ := ih
                (hplaced.peel popped next index hpoppedHolds hpure hpeel) hnext
                (by rw [hsize]; exact hlimit) (by
                  rw [hsize]
                  simp only [indexCount] at hlength hfuel ⊢
                  omega)
              exact ⟨fun error hresult => hnote _ (.peel hpure hpeel (herror error hresult)),
                fun final hresult => hnote _ (.peel hpure hpeel (hok final hresult))⟩
        next hpure =>
          rw [Bool.not_eq_true] at hpure
          obtain ⟨herror, hok⟩ := ih hpoppedHolds
            (fun other hother => by
              have hmem := hstack other (hsketch ▸ hother)
              rw [hcons] at hmem
              rw [hrest]
              rcases List.mem_cons.mp hmem with rfl | hmem
              · rw [hother] at hpure
                cases hpure
              · exact hmem)
            (by rw [hcount, hsketch]; exact hfound)
            (by rw [hcount, hsketch, hrest]; omega)
          exact ⟨fun error hresult => hnote _ (herror error hresult),
            fun final hresult => hnote _ (hok final hresult)⟩

end Decoding

/-- Decoding peels in one of the orders. -/
theorem anyOrder_decode (hplaced : Decoding.Placed holds) (hholds : holds (Decoding.start sketch)) :
    (Decoding.start sketch).AnyOrder sketch.decode := by
  have hstart : (Decoding.start sketch).pureCells.length ≤ sketch.cells.length := by
    rw [Decoding.start, List.length_reverse]
    exact (List.length_filter_le _ _).trans_eq List.length_range
  have hfuel : (Decoding.start sketch).pureCells.length +
      indexCount * (Decoding.dMax (Decoding.start sketch).sketch - (Decoding.start sketch).found) <
        Decoding.rounds sketch := by
    have hsketch : (Decoding.start sketch).sketch = sketch := rfl
    rw [hsketch, Decoding.rounds, indexCount]
    omega
  obtain ⟨herror, hok⟩ := Decoding.anyOrder_peelAll hplaced hholds
    (Decoding.onStack_start sketch) (Nat.zero_le _) hfuel
  unfold decode
  split
  next error hresult => exact herror error hresult
  next final hresult => exact hok final hresult

end IbltSketch

end MerkleTox.Reconcile
