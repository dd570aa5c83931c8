import Mathlib.Algebra.BigOperators.Pi
import Mathlib.Tactic.Abel
import MerkleTox.Reconcile.Iblt

/-! # What decoding takes out of a sketch

Peeling subtracts from the cells what the peeled element adds to them, whoever filled the
cells. A decoding that succeeds has taken the whole sketch apart.
-/

namespace MerkleTox.Reconcile

open MerkleTox.Core

variable {cell peeled : IbltCell} {index fuel : Nat} {id : NodeHash} {stats : DecodingStats}

namespace IbltSketch

variable [IbltHash]

/-- A cell passes if it holds a single element, added or subtracted. -/
theorem passes_iff {sketch : IbltSketch} :
    sketch.passes cell = true ↔ ∃ id : NodeHash,
      (cell = ⟨1, id.bytes, sketch.getChecksum id⟩ ∨
        cell = -⟨1, id.bytes, sketch.getChecksum id⟩) := by
  simp only [passes, Bool.and_eq_true, Bool.or_eq_true, decide_eq_true_eq]
  constructor
  · rintro ⟨hcount | hcount, hhash⟩
    · refine ⟨⟨cell.idSum⟩, .inl ?_⟩
      ext : 1
      · exact hcount
      · rfl
      · exact hhash.symm
    · refine ⟨⟨cell.idSum⟩, .inr ?_⟩
      ext : 1
      · exact hcount
      · rfl
      · exact hhash.symm
  · rintro ⟨id, rfl | rfl⟩
    · exact ⟨.inl rfl, rfl⟩
    · exact ⟨.inr rfl, rfl⟩

theorem isPure_eq (sketch : IbltSketch) (index : Nat) :
    sketch.isPure index = sketch.passes (sketch.cellAt index) := by
  unfold isPure cellAt
  cases sketch.cells[index]? with
  | none => rfl
  | some cell => rfl

theorem isPure_congr {sketch other : IbltSketch} (hshape : sketch.shape = other.shape)
    (hcell : sketch.cellAt index = other.cellAt index) :
    sketch.isPure index = other.isPure index := by
  rw [isPure_eq, isPure_eq, hcell, passes, passes, getChecksum_congr hshape]

theorem clearElement_fst (id : NodeHash) (peeled : IbltCell) (indices : List Nat)
    (sketch : IbltSketch) (pureCells : List Nat) :
    (clearElement id peeled indices (sketch, pureCells)).1 =
      indices.foldl (modifyCell · fun cell =>
        ⟨cell.count - peeled.count, cell.idSum ^^^ id.bytes, cell.hashSum ^^^ peeled.hashSum⟩)
        sketch := by
  induction indices generalizing sketch pureCells with
  | nil => rfl
  | cons index rest ih => exact ih _ _

/-- What a peeled element leaves in the cells. -/
theorem cellAt_clearElement {sketch : IbltSketch} (hid : peeled.idSum = id.bytes)
    (pureCells : List Nat) (index : Nat) :
    (clearElement id peeled (sketch.getIndices id) (sketch, pureCells)).1.cellAt index =
      if index ∈ sketch.getIndices id then sketch.cellAt index - peeled
      else sketch.cellAt index := by
  rw [clearElement_fst, cellAt_foldl_modifyCell _ (sketch.nodup_getIndices id)
    (fun _ hmem => lt_of_mem_getIndices hmem), ← hid]
  rfl

namespace Decoding

/-- A round that peels: the element is added to one of the lists and taken out of the cells. -/
inductive Peels (decoding : Decoding) (id : NodeHash) (next : Decoding) : Prop
  | inSelf (hself : next.inSelf = decoding.inSelf ++ [id])
      (hother : next.inOther = decoding.inOther)
      (hcells : next.sketch.cellAt = decoding.sketch.cellAt - decoding.sketch.code id)
  | inOther (hself : next.inSelf = decoding.inSelf)
      (hother : next.inOther = decoding.inOther ++ [id])
      (hcells : next.sketch.cellAt = decoding.sketch.cellAt + decoding.sketch.code id)

/-- A peeled element is noted on one side and taken out of the cells. -/
theorem peel_ok {decoding next : Decoding} (hok : decoding.peel cell = .ok next) :
    next.inSelf = (decoding.find cell).inSelf ∧ next.inOther = (decoding.find cell).inOther ∧
      next.inSelf.length + next.inOther.length ≤ dMax decoding.sketch ∧
      (next.sketch, next.pureCells) = clearElement ⟨cell.idSum⟩ cell
        (decoding.sketch.getIndices ⟨cell.idSum⟩) (decoding.sketch, decoding.pureCells) := by
  unfold peel at hok
  simp only at hok
  split at hok
  · cases hok
  next hlimit =>
    cases hok
    exact ⟨rfl, rfl, Nat.le_of_not_lt hlimit, rfl⟩

theorem shape_peel {decoding next : Decoding} (hok : decoding.peel cell = .ok next) :
    next.sketch.shape = decoding.sketch.shape := by
  obtain ⟨-, -, -, hcleared⟩ := peel_ok hok
  have hsketch : next.sketch = (clearElement ⟨cell.idSum⟩ cell
      (decoding.sketch.getIndices ⟨cell.idSum⟩) (decoding.sketch, decoding.pureCells)).1 :=
    congrArg Prod.fst hcleared
  rw [hsketch, clearElement_fst]
  exact shape_foldl_modifyCell _ _

theorem peel_peels {decoding next : Decoding}
    (hpure : decoding.sketch.cellAt index = ⟨1, id.bytes, decoding.sketch.getChecksum id⟩ ∨
      decoding.sketch.cellAt index = -⟨1, id.bytes, decoding.sketch.getChecksum id⟩)
    (hok : decoding.peel (decoding.sketch.cellAt index) = .ok next) :
    decoding.Peels id next := by
  obtain ⟨hself, hother, -, hcleared⟩ := peel_ok hok
  have hcells : ∀ other, next.sketch.cellAt other =
      (clearElement ⟨(decoding.sketch.cellAt index).idSum⟩ (decoding.sketch.cellAt index)
        (decoding.sketch.getIndices ⟨(decoding.sketch.cellAt index).idSum⟩)
        (decoding.sketch, decoding.pureCells)).1.cellAt other :=
    congrFun (congrArg cellAt (congrArg Prod.fst hcleared))
  rcases hpure with hpure | hpure
  · rw [hpure] at hself hother hcells
    refine .inSelf hself hother (funext fun other => ?_)
    rw [hcells, cellAt_clearElement rfl, Pi.sub_apply, code]
    split
    · rfl
    · exact (sub_zero _).symm
  · have hid : (-⟨1, id.bytes, decoding.sketch.getChecksum id⟩ : IbltCell).idSum = id.bytes := rfl
    rw [hpure] at hself hother hcells
    refine .inOther hself hother (funext fun other => ?_)
    rw [hcells, cellAt_clearElement rfl, hid, Pi.add_apply, code]
    split
    · rw [sub_neg_eq_add]
    · rw [add_zero]

/-- The elements found so far and the cells that are left make up the sketch. -/
structure Accounts (sketch : IbltSketch) (decoding : Decoding) : Prop where
  shape : decoding.sketch.shape = sketch.shape
  cells : decoding.sketch.cellAt + (decoding.inSelf.map sketch.code).sum -
    (decoding.inOther.map sketch.code).sum = sketch.cellAt

variable {sketch : IbltSketch} {decoding next : Decoding}

theorem Accounts.peels (haccounts : decoding.Accounts sketch)
    (hshape : next.sketch.shape = decoding.sketch.shape) (hpeels : decoding.Peels id next) :
    next.Accounts sketch := by
  refine ⟨hshape.trans haccounts.shape, ?_⟩
  rw [← haccounts.cells]
  cases hpeels with
  | inSelf hself hother hcells =>
      rw [hself, hother, hcells, code_congr haccounts.shape, List.map_append, List.sum_append,
        List.map_singleton, List.sum_singleton]
      abel
  | inOther hself hother hcells =>
      rw [hself, hother, hcells, code_congr haccounts.shape, List.map_append, List.sum_append,
        List.map_singleton, List.sum_singleton]
      abel

theorem Accounts.peelAll (haccounts : decoding.Accounts sketch)
    (hok : decoding.peelAll fuel = .ok next) : next.Accounts sketch := by
  induction fuel generalizing decoding with
  | zero =>
      cases hok
      exact haccounts
  | succ fuel ih =>
      unfold Decoding.peelAll at hok
      split at hok
      · cases hok
        exact haccounts
      next index rest _ =>
        have hpopped : Accounts sketch { decoding with
            pureCells := rest
            stats := { decoding.stats with iterations := decoding.stats.iterations + 1 } } :=
          ⟨haccounts.shape, haccounts.cells⟩
        simp only at hok
        split at hok
        next hpure =>
          obtain ⟨id, hcell⟩ := passes_iff.mp ((isPure_eq _ index).symm.trans hpure)
          split at hok
          · cases hok
          next peeled hpeel =>
            exact ih (hpopped.peels (shape_peel hpeel) (peel_peels hcell hpeel)) hok
        · exact ih hpopped hok

theorem Accounts.start (sketch : IbltSketch) : (start sketch).Accounts sketch :=
  ⟨rfl, by rw [Decoding.start, List.map_nil, List.sum_nil, add_zero, sub_zero]⟩

omit [IbltHash] in
theorem finish_ok {inSelf inOther : List NodeHash}
    (hok : decoding.finish = .ok (inSelf, inOther, stats)) :
    decoding.inSelf = inSelf ∧ decoding.inOther = inOther ∧ decoding.sketch.cellAt = 0 := by
  unfold finish at hok
  split at hok
  · cases hok
  next hempty =>
    cases hok
    refine ⟨rfl, rfl, funext fun index => ?_⟩
    unfold cellAt
    cases hcell : decoding.sketch.cells[index]? with
    | none => rfl
    | some cell =>
        have hzero := List.findIdx?_eq_none_iff.mp hempty cell (List.mem_of_getElem? hcell)
        simpa using hzero

end Decoding

/-- What a decoding that succeeds returns is what the sketch holds. -/
theorem decode_sum {sketch : IbltSketch} {inSelf inOther : List NodeHash}
    (hok : sketch.decode = .ok (inSelf, inOther, stats)) :
    sketch.cellAt = (inSelf.map sketch.code).sum - (inOther.map sketch.code).sum := by
  unfold decode at hok
  split at hok
  · cases hok
  next decoding hpeeled =>
    obtain ⟨rfl, rfl, hempty⟩ := Decoding.finish_ok hok
    have hcells := ((Decoding.Accounts.start sketch).peelAll hpeeled).cells
    rw [hempty, zero_add] at hcells
    exact hcells.symm

/-- If decoding the difference of two sketches succeeds, the difference is the sketch of the
elements found on one side less the sketch of those found on the other, in every cell. -/
theorem decode_difference (first second difference : IbltSketch) (inSelf inOther : List NodeHash)
    (stats : DecodingStats) (hsubtract : first.subtract second = .ok difference)
    (hdecode : difference.decode = .ok (inSelf, inOther, stats)) :
    (encode first.cells.length first.kIblt inSelf).subtract
        (encode first.cells.length first.kIblt inOther) = .ok difference ∧
      ∀ index, first.cellAt index - second.cellAt index =
        (inSelf.map fun id => first.code id index).sum -
          (inOther.map fun id => first.code id index).sum := by
  obtain ⟨-, hshape, hcells⟩ := subtract_ok hsubtract
  have hsum := decode_sum hdecode
  rw [code_congr hshape] at hsum
  refine ⟨?_, fun index => ?_⟩
  · have hself := shape_encode first.cells.length first.kIblt inSelf
    have hother := shape_encode first.cells.length first.kIblt inOther
    cases hok : (encode first.cells.length first.kIblt inSelf).subtract
        (encode first.cells.length first.kIblt inOther) with
    | error error =>
        unfold subtract at hok
        split at hok
        next hne => exact absurd (congrArg Prod.fst (hself.trans hother.symm)) hne
        next => cases hok
    | ok encoded =>
        obtain ⟨-, hencoded, hsums⟩ := subtract_ok hok
        refine congrArg Except.ok (eq_of_cellAt ?_ ?_)
        · exact hencoded.trans (hself.trans hshape.symm)
        · rw [hsums, cellAt_encode rfl, cellAt_encode rfl, hsum]
  · have hindex := congrFun hsum index
    rw [hcells, Pi.sub_apply, Pi.sub_apply] at hindex
    rw [hindex, Pi.list_sum_apply, Pi.list_sum_apply, List.map_map, List.map_map]
    rfl

end IbltSketch

namespace Reference

/-! ## Two small sets -/

def left : IbltSketch := .encode 16 none [⟨1⟩, ⟨2⟩]
def right : IbltSketch := .encode 16 none [⟨2⟩, ⟨3⟩]

/-- What `left` has more than `right` and what it has less. -/
def apart : IbltSketch := (left.subtract right).toOption.getD left

theorem decode_difference_apart :
    left.subtract right = .ok apart ∧
      ((IbltSketch.encode 16 none [⟨1⟩]).subtract (.encode 16 none [⟨3⟩]) = .ok apart ∧
        ∀ index, left.cellAt index - right.cellAt index =
          ([⟨1⟩].map fun id => left.code id index).sum -
            ([⟨3⟩].map fun id => left.code id index).sum) := by
  have hsubtract : left.subtract right = .ok apart := by decide +kernel
  have hdecode : apart.decode = .ok ([⟨1⟩], [⟨3⟩], ⟨2, 38⟩) := by decide +kernel
  exact ⟨hsubtract, IbltSketch.decode_difference left right apart _ _ _ hsubtract hdecode⟩

end Reference

end MerkleTox.Reconcile
