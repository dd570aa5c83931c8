import Mathlib.Algebra.BigOperators.Group.Finset.Basic
import Mathlib.Data.Finset.SymmDiff
import MerkleTox.Library.Peeling
import MerkleTox.Reconcile.AnyOrder

/-! # Decoding finds the difference of two sets

The difference of two sketches is the sum of the elements that only one of the sets has, with
a sign for the side. As long as elements that meet in a cell do not look like one or none, a
cell is pure when an element is alone in it, and decoding is peeling these elements.
-/

namespace MerkleTox.Reconcile

open MerkleTox.Core
open Library.Peeling (Alone Stuck Peelable)

namespace IbltSketch

variable [IbltHash]

/-- The cells of the elements. -/
def Places (sketch : IbltSketch) (id : NodeHash) (index : Nat) : Prop :=
  index ∈ sketch.getIndices id

/-- What an element adds to the cells of a difference, by the side it is on. -/
def signedCode (sketch : IbltSketch) (left : Finset NodeHash) (id : NodeHash) : Nat → IbltCell :=
  if id ∈ left then sketch.code id else -sketch.code id

/-- The elements that only one of the lists has. -/
def onlyOne (left right : List NodeHash) : Finset NodeHash :=
  symmDiff left.toFinset right.toFinset

/-- Two or more differing elements that meet in a cell look neither like a single element nor
like none. -/
def Separates (sketch : IbltSketch) (left differing : Finset NodeHash) : Prop :=
  ∀ group ⊆ differing, 1 < group.card → ∀ index, (∀ id ∈ group, sketch.Places id index) →
    (∑ id ∈ group, sketch.signedCode left id) index ≠ 0 ∧
      sketch.passes ((∑ id ∈ group, sketch.signedCode left id) index) = false

section Cells

variable {sketch : IbltSketch} {left differing remaining : Finset NodeHash} {id : NodeHash}
variable {index : Nat}

variable (left) in
theorem signedCode_of_placed (hplaced : sketch.Places id index) :
    sketch.signedCode left id index = if id ∈ left then
      ⟨1, id.bytes, sketch.getChecksum id⟩ else -⟨1, id.bytes, sketch.getChecksum id⟩ := by
  unfold signedCode
  split
  · exact if_pos hplaced
  · exact congrArg Neg.neg (if_pos hplaced)

theorem signedCode_of_not_placed (hplaced : ¬ sketch.Places id index) :
    sketch.signedCode left id index = 0 := by
  unfold signedCode
  split
  · exact if_neg hplaced
  · have hzero : sketch.code id index = 0 := if_neg hplaced
    rw [Pi.neg_apply, hzero, neg_zero]

theorem idSum_signedCode (hplaced : sketch.Places id index) :
    (sketch.signedCode left id index).idSum = id.bytes := by
  rw [signedCode_of_placed left hplaced]
  split <;> rfl

theorem count_signedCode (hplaced : sketch.Places id index) :
    (sketch.signedCode left id index).count = 1 ↔ id ∈ left := by
  rw [signedCode_of_placed left hplaced]
  split
  next hmem => exact iff_of_true rfl hmem
  next hmem => exact iff_of_false (by change ¬ (-1 : BitVec 32) = 1; decide) hmem

/-- Only the elements that are in a cell count there. -/
theorem sum_eq_sum_filter (sketch : IbltSketch) (left remaining : Finset NodeHash)
    (index : Nat) [DecidablePred (sketch.Places · index)] :
    (∑ id ∈ remaining, sketch.signedCode left id) index =
      (∑ id ∈ remaining.filter (sketch.Places · index), sketch.signedCode left id) index := by
  rw [Finset.sum_apply, Finset.sum_apply]
  refine (Finset.sum_filter_of_ne fun id _ hne => ?_).symm
  by_contra hplaced
  exact hne (signedCode_of_not_placed hplaced)

/-- What a cell holds: nothing, a single element, or something that looks like neither. -/
theorem cell_cases (hseparates : sketch.Separates left differing)
    (hsub : remaining ⊆ differing) (index : Nat) :
    (∀ id ∈ remaining, ¬ sketch.Places id index) ∧
        (∑ id ∈ remaining, sketch.signedCode left id) index = 0 ∨
      (∃ id, Alone sketch.Places remaining id index ∧
        (∑ id ∈ remaining, sketch.signedCode left id) index = sketch.signedCode left id index) ∨
      ((∀ id, ¬ Alone sketch.Places remaining id index) ∧
        (∑ id ∈ remaining, sketch.signedCode left id) index ≠ 0 ∧
        sketch.passes ((∑ id ∈ remaining, sketch.signedCode left id) index) = false) := by
  classical
  obtain ⟨group, hgroup⟩ : ∃ group, group = remaining.filter (sketch.Places · index) := ⟨_, rfl⟩
  have hmem : ∀ id, id ∈ group ↔ id ∈ remaining ∧ sketch.Places id index := by
    intro id
    rw [hgroup, Finset.mem_filter]
  rw [sum_eq_sum_filter sketch left remaining index, ← hgroup]
  rcases Nat.lt_trichotomy group.card 1 with hcard | hcard | hcard
  · left
    have hempty : group = ∅ := Finset.card_eq_zero.mp (Nat.lt_one_iff.mp hcard)
    refine ⟨fun id hid hplaced => ?_, ?_⟩
    · have hin := (hmem id).mpr ⟨hid, hplaced⟩
      rw [hempty] at hin
      exact Finset.notMem_empty _ hin
    · rw [hempty, Finset.sum_empty]
      rfl
  · right; left
    obtain ⟨id, hsingle⟩ := Finset.card_eq_one.mp hcard
    obtain ⟨hremaining, hplaced⟩ := (hmem id).mp (hsingle ▸ Finset.mem_singleton_self id)
    refine ⟨id, ⟨hremaining, hplaced, fun other hother hthere => ?_⟩, ?_⟩
    · have hin := (hmem other).mpr ⟨hother, hthere⟩
      rw [hsingle] at hin
      exact Finset.mem_singleton.mp hin
    · rw [hsingle, Finset.sum_singleton]
  · right; right
    refine ⟨fun id halone => ?_, hseparates group (fun id hid => hsub ((hmem id).mp hid).1) hcard
      index fun id hid => ((hmem id).mp hid).2⟩
    refine absurd hcard (Nat.not_lt.mpr (Finset.card_le_one.mpr ?_))
    intro first hfirst second hsecond
    rw [halone.2.2 first ((hmem first).mp hfirst).1 ((hmem first).mp hfirst).2,
      halone.2.2 second ((hmem second).mp hsecond).1 ((hmem second).mp hsecond).2]

variable {peeled : IbltSketch}

section

variable (hshape : peeled.shape = sketch.shape) (hcells : peeled.cellAt = ∑ id ∈ remaining,
  sketch.signedCode left id) (hseparates : sketch.Separates left differing) (hsub : remaining ⊆
  differing)
include hshape hcells hseparates hsub

/-- A sketch that holds the remaining elements has a pure cell where one of them is alone. -/
theorem alone_of_isPure (hpure : peeled.isPure index = true) :
    ∃ id, Alone sketch.Places remaining id index ∧
      peeled.cellAt index = sketch.signedCode left id index := by
  have hpasses : sketch.passes ((∑ id ∈ remaining, sketch.signedCode left id) index) = true := by
    rw [← hcells, ← hpure, isPure_eq, passes, passes, getChecksum_congr hshape]
  rcases cell_cases hseparates hsub index with ⟨-, hzero⟩ | hsingle | ⟨-, -, hfails⟩
  · have hfails : sketch.passes 0 = false := rfl
    rw [hzero, hfails] at hpasses
    cases hpasses
  · rw [hcells]
    exact hsingle
  · rw [hfails] at hpasses
    cases hpasses

theorem isPure_of_alone (halone : Alone sketch.Places remaining id index) :
    peeled.isPure index = true := by
  have hpasses : sketch.passes ((∑ id ∈ remaining, sketch.signedCode left id) index) = true := by
    rcases cell_cases hseparates hsub index with ⟨hnone, -⟩ | ⟨other, hother, hsum⟩ | ⟨hnone, -⟩
    · exact absurd halone.2.1 (hnone id halone.1)
    · rw [hsum, signedCode_of_placed left hother.2.1]
      refine passes_iff.mpr ⟨other, ?_⟩
      split
      · exact .inl rfl
      · exact .inr rfl
    · exact absurd halone (hnone id)
  rw [← hpasses, isPure_eq, ← hcells, passes, passes, getChecksum_congr hshape]

end

/-- An element that remains is in some cell, which is then not empty. -/
theorem cells_eq_zero (hcount : 0 < sketch.cells.length)
    (hcells : peeled.cellAt = ∑ id ∈ remaining, sketch.signedCode left id)
    (hseparates : sketch.Separates left differing) (hsub : remaining ⊆ differing) :
    peeled.cellAt = 0 ↔ remaining = ∅ := by
  constructor
  · intro hzero
    by_contra hne
    obtain ⟨id, hid⟩ := Finset.nonempty_iff_ne_empty.mpr hne
    obtain ⟨index, hplaced⟩ := exists_mem_getIndices sketch id hcount
    have hindex := congrFun hzero index
    rw [hcells, Pi.zero_apply] at hindex
    rcases cell_cases hseparates hsub index with ⟨hnone, -⟩ | ⟨other, hother, hsum⟩ | ⟨-, hsum, -⟩
    · exact hnone id hid hplaced
    · have hsum' := congrArg IbltCell.idSum (hsum.symm.trans hindex)
      have hcounted := congrArg IbltCell.count (hsum.symm.trans hindex)
      rw [signedCode_of_placed left hother.2.1] at hcounted
      split at hcounted
      · cases hcounted
      · cases hcounted
    · exact hsum hindex
  · rintro rfl
    rw [hcells, Finset.sum_empty]

end Cells

namespace Decoding

omit [IbltHash] in
/-- The limit on the number of differences depends on the size only. -/
theorem dMax_congr {sketch other : IbltSketch} (hshape : sketch.shape = other.shape) :
    dMax sketch = dMax other := by
  have hcells : sketch.cells.length = other.cells.length := congrArg Prod.fst hshape
  rw [dMax, dMax, hcells]

/-- The elements found so far were peeled off, those that remain make up the cells. -/
structure Holding (sketch : IbltSketch) (left differing : Finset NodeHash) (decoding : Decoding)
    (order : List NodeHash) (remaining : Finset NodeHash) : Prop where
  shape : decoding.sketch.shape = sketch.shape
  peels : Library.Peeling.Peels sketch.Places differing order remaining
  cells : decoding.sketch.cellAt = ∑ id ∈ remaining, sketch.signedCode left id
  inSelf : decoding.inSelf = order.filter (· ∈ left)
  inOther : decoding.inOther = order.filter (· ∉ left)

section Steps

variable {sketch : IbltSketch} {left differing remaining : Finset NodeHash}
variable {decoding next : Decoding} {order : List NodeHash} {index : Nat}

theorem Holding.found_eq (hholding : Holding sketch left differing decoding order remaining) :
    decoding.found = order.length := by
  have hsplit := List.length_eq_length_filter_add (l := order) (fun id => decide (id ∈ left))
  simp only [← decide_not] at hsplit
  rw [found, hholding.inSelf, hholding.inOther, hsplit]

/-- Which element a pure cell stands for. -/
theorem Holding.alone (hholding : Holding sketch left differing decoding order remaining)
    (hseparates : sketch.Separates left differing)
    (hpure : decoding.sketch.isPure index = true) :
    ∃ id, Alone sketch.Places remaining id index ∧
      decoding.sketch.cellAt index = sketch.signedCode left id index :=
  alone_of_isPure hholding.shape hholding.cells hseparates hholding.peels.rest_subset hpure

variable {cell : IbltCell} {error : ReconciliationError}

theorem cellAt_peel (hok : decoding.peel cell = .ok next) (other : Nat) :
    next.sketch.cellAt other =
      if other ∈ decoding.sketch.getIndices ⟨cell.idSum⟩ then decoding.sketch.cellAt other - cell
      else decoding.sketch.cellAt other := by
  obtain ⟨-, -, -, hcleared⟩ := peel_ok hok
  have hsketch : next.sketch = (clearElement ⟨cell.idSum⟩ cell
      (decoding.sketch.getIndices ⟨cell.idSum⟩) (decoding.sketch, decoding.pureCells)).1 :=
    congrArg Prod.fst hcleared
  rw [hsketch]
  exact cellAt_clearElement rfl _ other

theorem peel_error (herror : decoding.peel cell = .error error) :
    dMax decoding.sketch < decoding.found + 1 := by
  rw [← found_find decoding cell]
  unfold Decoding.peel at herror
  simp only at herror
  split at herror
  next hlimit => exact hlimit
  next => cases herror

omit [IbltHash] in
theorem finish_error (herror : decoding.finish = .error error) : decoding.sketch.cellAt ≠ 0 := by
  intro hzero
  have hnone : (decoding.sketch.cells.findIdx? fun cell => cell ≠ 0) = none := by
    refine List.findIdx?_eq_none_iff.mpr fun cell hmem => ?_
    obtain ⟨index, hcell⟩ := List.mem_iff_getElem?.mp hmem
    have hindex := congrFun hzero index
    rw [cellAt, hcell, Option.getD_some] at hindex
    simp [hindex]
  rw [finish, hnone] at herror
  cases herror

variable (decoding) in
omit [IbltHash] in
/-- The element of a cell is noted on its side. -/
theorem find_side {id : NodeHash} (hid : (⟨cell.idSum⟩ : NodeHash) = id)
    (hside : cell.count = 1 ↔ id ∈ left) :
    (decoding.find cell).inSelf = decoding.inSelf ++ [id].filter (· ∈ left) ∧
      (decoding.find cell).inOther = decoding.inOther ++ [id].filter (· ∉ left) := by
  subst hid
  unfold find
  split
  next hone =>
    have hmem := hside.mp hone
    simp [hmem]
  next hone =>
    have hmem : (⟨cell.idSum⟩ : NodeHash) ∉ left := fun hmem => hone (hside.mpr hmem)
    simp [hmem]

/-- Peeling a pure cell takes its element out of those that remain. -/
theorem Holding.peel (hholding : Holding sketch left differing decoding order remaining)
    {id : NodeHash} (halone : Alone sketch.Places remaining id index)
    (hcell : decoding.sketch.cellAt index = sketch.signedCode left id index)
    (hok : decoding.peel (decoding.sketch.cellAt index) = .ok next) :
    Holding sketch left differing next (order ++ [id]) (remaining.erase id) := by
  have hsigned := signedCode_of_placed left halone.2.1
  have hsum : ∑ other ∈ remaining, sketch.signedCode left other =
      sketch.signedCode left id + ∑ other ∈ remaining.erase id, sketch.signedCode left other :=
    (Finset.add_sum_erase remaining _ halone.1).symm
  have hid : (⟨(decoding.sketch.cellAt index).idSum⟩ : NodeHash) = id := by
    rw [hcell, idSum_signedCode halone.2.1]
  obtain ⟨hself, hother, -, -⟩ := peel_ok hok
  have hnoted := find_side decoding hid
    (by rw [hcell]; exact count_signedCode halone.2.1)
  refine ⟨(shape_peel hok).trans hholding.shape, .snoc hholding.peels halone, ?_, ?_, ?_⟩
  · -- What is subtracted is what the element added, in its cells and in no other.
    have hcleared : next.sketch.cellAt =
        decoding.sketch.cellAt - sketch.signedCode left id := by
      funext other
      rw [cellAt_peel hok, hid, getIndices_congr hholding.shape, Pi.sub_apply]
      split
      next hplaced => rw [hcell, hsigned, signedCode_of_placed left hplaced]
      next hplaced => rw [signedCode_of_not_placed hplaced, sub_zero]
    rw [hcleared, hholding.cells, hsum, add_sub_cancel_left]
  · rw [hself, hnoted.1, List.filter_append, ← hholding.inSelf]
  · rw [hother, hnoted.2, List.filter_append, ← hholding.inOther]

/-- What a decoding that ends is to return for these elements. -/
def Decides (sketch : IbltSketch) (left differing : Finset NodeHash) :
    Except ReconciliationError (List NodeHash × List NodeHash × DecodingStats) → Prop
  | .ok (inSelf, inOther, _) =>
      (Peelable sketch.Places differing ∧ differing.card ≤ dMax sketch) ∧
        inSelf.Nodup ∧ inOther.Nodup ∧ (∀ id, id ∈ inSelf ↔ id ∈ differing ∧ id ∈ left) ∧
          ∀ id, id ∈ inOther ↔ id ∈ differing ∧ id ∉ left
  | .error _ => ¬ (Peelable sketch.Places differing ∧ differing.card ≤ dMax sketch)

/-- With no pure cell left, the decoding has all elements or cannot have them. -/
theorem Holding.finish (hholding : Holding sketch left differing decoding order remaining)
    (hcount : 0 < sketch.cells.length) (hseparates : sketch.Separates left differing)
    (hfound : order.length ≤ dMax sketch)
    (hstuck : ∀ index, decoding.sketch.isPure index = false) :
    Decides sketch left differing decoding.finish := by
  have hsub := hholding.peels.rest_subset
  have hzero := cells_eq_zero hcount hholding.cells hseparates hsub
  have hnone : Stuck sketch.Places remaining := by
    intro id index halone
    have hpure := isPure_of_alone hholding.shape hholding.cells hseparates hsub halone
    rw [hstuck index] at hpure
    cases hpure
  cases hresult : decoding.finish with
  | error error =>
      rintro ⟨⟨all, hall⟩, -⟩
      have hempty := hholding.peels.stuck_unique hnone hall Library.Peeling.stuck_empty
      exact finish_error hresult (hzero.mpr hempty)
  | ok result =>
      obtain ⟨inSelf, inOther, stats⟩ := result
      obtain ⟨rfl, rfl, hcells⟩ := finish_ok hresult
      obtain rfl := hzero.mp hcells
      have hmem := hholding.peels.mem_iff
      have hnodup := hholding.peels.nodup
      have hcard := hholding.peels.card_eq
      rw [Finset.card_empty, Nat.add_zero] at hcard
      refine ⟨⟨⟨order, hholding.peels⟩, hcard.trans_le hfound⟩, ?_, ?_, fun id => ?_, fun id => ?_⟩
      · rw [hholding.inSelf]
        exact hnodup.filter _
      · rw [hholding.inOther]
        exact hnodup.filter _
      · rw [hholding.inSelf, List.mem_filter, hmem]
        simp
      · rw [hholding.inOther, List.mem_filter, hmem]
        simp

/-- Whatever the order, decoding finds all elements, or they cannot all be peeled off or are
too many. -/
theorem AnyOrder.decides
    {result : Except ReconciliationError (List NodeHash × List NodeHash × DecodingStats)}
    (horder : AnyOrder decoding result) (hcount : 0 < sketch.cells.length)
    (hseparates : sketch.Separates left differing)
    (hholding : Holding sketch left differing decoding order remaining)
    (hfound : order.length ≤ dMax sketch) : Decides sketch left differing result := by
  induction horder generalizing order remaining with
  | stop hstuck => exact hholding.finish hcount hseparates hfound hstuck
  | @abort decoding index error hpure herror =>
      obtain ⟨id, halone, hcell⟩ := hholding.alone hseparates hpure
      have hlimit := peel_error herror
      rw [dMax_congr hholding.shape, hholding.found_eq] at hlimit
      have hsplit := hholding.peels.card_eq
      have hpositive := Finset.card_pos.mpr ⟨id, halone.1⟩
      rintro ⟨-, hcard⟩
      omega
  | peel hpure hok _ ih =>
      obtain ⟨id, halone, hcell⟩ := hholding.alone hseparates hpure
      have hnext := hholding.peel halone hcell hok
      refine ih hnext ?_
      have hlimit := (found_peel hok).2
      rw [hnext.found_eq, dMax_congr hholding.shape] at hlimit
      exact hlimit
  | note pureCells stats _ ih =>
      exact ih ⟨hholding.shape, hholding.peels, hholding.cells, hholding.inSelf,
        hholding.inOther⟩ hfound

/-- As long as elements that meet can be told apart, a pure cell is one of its element's. -/
theorem placed_holding (hseparates : sketch.Separates left differing) :
    Placed fun decoding => ∃ order remaining,
      Holding sketch left differing decoding order remaining where
  note := by
    rintro decoding pureCells stats ⟨order, remaining, hholding⟩
    exact ⟨order, remaining, hholding.shape, hholding.peels, hholding.cells, hholding.inSelf,
      hholding.inOther⟩
  peel := by
    rintro decoding next index ⟨order, remaining, hholding⟩ hpure hok
    obtain ⟨id, halone, hcell⟩ := hholding.alone hseparates hpure
    exact ⟨_, _, hholding.peel halone hcell hok⟩
  placed := by
    rintro decoding index ⟨order, remaining, hholding⟩ hpure
    obtain ⟨id, halone, hcell⟩ := hholding.alone hseparates hpure
    rw [hcell, idSum_signedCode halone.2.1, getIndices_congr hholding.shape]
    exact halone.2.1

end Steps

end Decoding

/-! ## Two sets -/

section Sets

variable {cellCount : Nat} {kIblt : Option Bytes32} {left right : List NodeHash}
variable {difference : IbltSketch}

/-- The difference of two sketches is the sum of the elements that only one side has. -/
theorem cellAt_difference (hleft : left.Nodup) (hright : right.Nodup)
    (hsubtract : (encode cellCount kIblt left).subtract (encode cellCount kIblt right) =
      .ok difference) :
    difference.shape = (cellCount, kIblt) ∧
      difference.cellAt =
        ∑ id ∈ onlyOne left right, difference.signedCode left.toFinset id := by
  obtain ⟨-, hshape, hcells⟩ := subtract_ok hsubtract
  have hencoded := hshape.trans (shape_encode cellCount kIblt left)
  refine ⟨hencoded, ?_⟩
  have hself : ∑ id ∈ left.toFinset \ right.toFinset, difference.signedCode left.toFinset id =
      ∑ id ∈ left.toFinset \ right.toFinset, difference.code id :=
    Finset.sum_congr rfl fun id hmem => if_pos (Finset.mem_sdiff.mp hmem).1
  have hother : ∑ id ∈ right.toFinset \ left.toFinset, difference.signedCode left.toFinset id =
      -∑ id ∈ right.toFinset \ left.toFinset, difference.code id := by
    rw [← Finset.sum_neg_distrib]
    exact Finset.sum_congr rfl fun id hmem => if_neg (Finset.mem_sdiff.mp hmem).2
  rw [hcells, cellAt_encode hencoded, cellAt_encode hencoded, onlyOne, symmDiff_def,
    Finset.sup_eq_union, Finset.sum_union disjoint_sdiff_sdiff, hself, hother,
    ← sub_eq_add_neg, Finset.sum_sdiff_sub_sum_sdiff, List.sum_toFinset _ hleft,
    List.sum_toFinset _ hright]

/-- Two results find the same elements, or both fail. -/
def Agrees : Except ReconciliationError (List NodeHash × List NodeHash × DecodingStats) →
    Except ReconciliationError (List NodeHash × List NodeHash × DecodingStats) → Prop
  | .ok (inSelf, inOther, _), .ok (inSelf', inOther', _) =>
      inSelf.Perm inSelf' ∧ inOther.Perm inOther'
  | .error _, .error _ => True
  | _, _ => False

theorem Decoding.Decides.agrees {sketch : IbltSketch} {left differing : Finset NodeHash}
    {first second : Except ReconciliationError (List NodeHash × List NodeHash × DecodingStats)}
    (hfirst : Decoding.Decides sketch left differing first)
    (hsecond : Decoding.Decides sketch left differing second) : Agrees first second := by
  rcases first with error | ⟨inSelf, inOther, stats⟩ <;>
    rcases second with error' | ⟨inSelf', inOther', stats'⟩
  · trivial
  · exact hfirst hsecond.1
  · exact hsecond hfirst.1
  · obtain ⟨-, hself, hother, hmem, hmemOther⟩ := hfirst
    obtain ⟨-, hself', hother', hmem', hmemOther'⟩ := hsecond
    exact ⟨(List.perm_ext_iff_of_nodup hself hself').mpr fun id => (hmem id).trans (hmem' id).symm,
      (List.perm_ext_iff_of_nodup hother hother').mpr fun id =>
        (hmemOther id).trans (hmemOther' id).symm⟩

/-- Two sets in sketches of one size and key, whose differing elements can be told apart where
they meet. Decoding finds exactly the elements that only one of them has, if all of these can
be peeled off and they are within the limit, and in any order finds the same. -/
theorem decode_correct (cellCount : Nat) (kIblt : Option Bytes32) (left right : List NodeHash)
    (difference : IbltSketch) (hcount : 0 < cellCount) (hleft : left.Nodup)
    (hright : right.Nodup)
    (hsubtract : (encode cellCount kIblt left).subtract (encode cellCount kIblt right) =
      .ok difference)
    (hseparates : difference.Separates left.toFinset (onlyOne left right)) :
    (∀ inSelf inOther stats, difference.decode = .ok (inSelf, inOther, stats) →
        inSelf.Nodup ∧ inOther.Nodup ∧ (∀ id, id ∈ inSelf ↔ id ∈ left ∧ id ∉ right) ∧
          ∀ id, id ∈ inOther ↔ id ∈ right ∧ id ∉ left) ∧
      (Decoding.start difference).AnyOrder difference.decode ∧
      (∀ result, (Decoding.start difference).AnyOrder result →
        Agrees result difference.decode) ∧
      ((∃ found, difference.decode = .ok found) ↔
        Peelable difference.Places (onlyOne left right) ∧
          (onlyOne left right).card ≤ Decoding.dMax difference) := by
  obtain ⟨hshape, hcells⟩ := cellAt_difference hleft hright hsubtract
  have hsize : difference.cells.length = cellCount := congrArg Prod.fst hshape
  have hpositive : 0 < difference.cells.length := hsize ▸ hcount
  have hholding : Decoding.Holding difference left.toFinset (onlyOne left right)
      (Decoding.start difference) [] (onlyOne left right) :=
    ⟨rfl, .nil _, hcells, rfl, rfl⟩
  have hdecides : ∀ result, (Decoding.start difference).AnyOrder result →
      Decoding.Decides difference left.toFinset (onlyOne left right) result := fun result horder =>
    horder.decides hpositive hseparates hholding (Nat.zero_le _)
  have hcode := anyOrder_decode (Decoding.placed_holding hseparates) ⟨[], _, hholding⟩
  have hresult := hdecides _ hcode
  refine ⟨fun inSelf inOther stats hok => ?_, hcode,
    fun result horder => (hdecides result horder).agrees hresult, ?_⟩
  · rw [hok] at hresult
    obtain ⟨-, hself, hother, hmem, hmemOther⟩ := hresult
    refine ⟨hself, hother, fun id => ?_, fun id => ?_⟩
    · rw [hmem, onlyOne, Finset.mem_symmDiff, List.mem_toFinset, List.mem_toFinset]
      tauto
    · rw [hmemOther, onlyOne, Finset.mem_symmDiff, List.mem_toFinset, List.mem_toFinset]
      tauto
  · cases hdecode : difference.decode with
    | error error =>
        rw [hdecode] at hresult
        exact iff_of_false (fun ⟨_, hok⟩ => by cases hok) hresult
    | ok found =>
        rw [hdecode] at hresult
        exact iff_of_true ⟨found, rfl⟩ hresult.1

end Sets

end IbltSketch

namespace Reference

/-- The two elements that only one side has meet in two cells, and neither looks pure. -/
theorem separates_apart :
    apart.Separates ({⟨1⟩, ⟨2⟩} : Finset NodeHash) (IbltSketch.onlyOne [⟨1⟩, ⟨2⟩] [⟨2⟩, ⟨3⟩]) := by
  intro group hsub hcard index hplaced
  have honly : IbltSketch.onlyOne [⟨1⟩, ⟨2⟩] [⟨2⟩, ⟨3⟩] = ({⟨1⟩, ⟨3⟩} : Finset NodeHash) := by
    decide
  rw [honly] at hsub
  have hgroup : group = {⟨1⟩, ⟨3⟩} := Finset.eq_of_subset_of_card_le hsub hcard
  subst hgroup
  have hindex : index < 16 := IbltSketch.lt_of_mem_getIndices (hplaced ⟨1⟩ (by decide))
  have hcells : ∀ index < 16, (∀ id ∈ ({⟨1⟩, ⟨3⟩} : Finset NodeHash), index ∈ apart.getIndices id) →
      (∑ id ∈ ({⟨1⟩, ⟨3⟩} : Finset NodeHash), apart.signedCode {⟨1⟩, ⟨2⟩} id) index ≠ 0 ∧
        apart.passes ((∑ id ∈ ({⟨1⟩, ⟨3⟩} : Finset NodeHash),
          apart.signedCode {⟨1⟩, ⟨2⟩} id) index) = false := by
    decide +kernel
  exact hcells index hindex hplaced

theorem decode_correct_apart :
    (∀ inSelf inOther stats, apart.decode = .ok (inSelf, inOther, stats) →
        inSelf.Nodup ∧ inOther.Nodup ∧
          (∀ id : NodeHash, id ∈ inSelf ↔ id ∈ [(⟨1⟩ : NodeHash), ⟨2⟩] ∧
            id ∉ [(⟨2⟩ : NodeHash), ⟨3⟩]) ∧
          ∀ id : NodeHash, id ∈ inOther ↔ id ∈ [(⟨2⟩ : NodeHash), ⟨3⟩] ∧
            id ∉ [(⟨1⟩ : NodeHash), ⟨2⟩]) ∧
      (IbltSketch.Decoding.start apart).AnyOrder apart.decode ∧
      (∀ result, (IbltSketch.Decoding.start apart).AnyOrder result →
        IbltSketch.Agrees result apart.decode) ∧
      ((∃ found, apart.decode = .ok found) ↔
        Peelable apart.Places (IbltSketch.onlyOne [⟨1⟩, ⟨2⟩] [⟨2⟩, ⟨3⟩]) ∧
          (IbltSketch.onlyOne [⟨1⟩, ⟨2⟩] [⟨2⟩, ⟨3⟩]).card ≤
            IbltSketch.Decoding.dMax apart) :=
  IbltSketch.decode_correct 16 none _ _ apart (by decide) (by decide) (by decide)
    (by decide +kernel) separates_apart

end Reference

end MerkleTox.Reconcile
