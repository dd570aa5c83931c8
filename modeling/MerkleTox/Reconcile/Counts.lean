import Mathlib.Data.Finset.Card
import Mathlib.Data.Finset.Range
import MerkleTox.Library.Overflow
import MerkleTox.Reconcile.AnyOrder

/-! # Sketches of a peer

The cells of a sketch that a peer has sent may hold anything. Subtracting and decoding are
followed here through every operation at which the code can stop: a count that leaves its type,
the absolute value of the least count, a cell outside of the sketch. Peeling comes to an end
whatever the cells hold, but the counts are not safe.
-/

namespace MerkleTox.Reconcile

open MerkleTox.Core MerkleTox.Library

variable {indices : List Nat} {final reached : Decoding}

/-! ## Counts -/

/-- The counts that have an absolute value. -/
def Moderate (count : Int) : Prop := -2 ^ 31 < count ∧ count < 2 ^ 31

instance (count : Int) : Decidable (Moderate count) := inferInstanceAs (Decidable (_ ∧ _))

def subCount (count other : BitVec 32) : Checked (BitVec 32) :=
  ⟨count - other, !decide (Checked.FitsSigned 32 (count.toInt - other.toInt))⟩

def absCount (count : BitVec 32) : Checked (BitVec 32) :=
  ⟨count.abs, !decide (Checked.FitsSigned 32 |count.toInt|)⟩

theorem overflowed_absCount {count : BitVec 32} :
    (absCount count).overflowed = false ↔ Moderate count.toInt := by
  have hlow := BitVec.le_toInt count
  have hhigh := BitVec.toInt_lt (x := count)
  rw [absCount, Bool.not_eq_false', decide_eq_true_iff, Checked.FitsSigned, Moderate]
  simp only [Nat.reduceSub, Int.reducePow, Int.reduceNeg] at hlow hhigh ⊢
  rcases abs_cases count.toInt with ⟨habs, hsign⟩ | ⟨habs, hsign⟩ <;> omega

variable {count other : BitVec 32}

theorem toInt_subCount (hfits : Checked.FitsSigned 32 (count.toInt - other.toInt)) :
    (count - other).toInt = count.toInt - other.toInt := by
  rw [BitVec.toInt_sub]
  exact Checked.bmod_of_fits (by decide) hfits

theorem Moderate.fits {count : Int} (h : Moderate count) : Checked.FitsSigned 32 count :=
  ⟨h.1.le, h.2⟩

/-- The absolute value is taken of a count that was computed before. -/
theorem overflowed_sub_abs :
    ((subCount count other).overflowed = false ∧
      (absCount (count - other)).overflowed = false) ↔
      Moderate (count.toInt - other.toInt) := by
  rw [overflowed_absCount, subCount, Bool.not_eq_false', decide_eq_true_iff]
  constructor
  · rintro ⟨hfits, habs⟩
    rwa [toInt_subCount hfits] at habs
  · intro h
    refine ⟨h.fits, ?_⟩
    rwa [toInt_subCount h.fits]

theorem abs_eq_one_iff {count : BitVec 32} : count.abs = 1 ↔ count = 1 ∨ count = -1 := by
  constructor
  · intro habs
    unfold BitVec.abs at habs
    split at habs
    · exact .inr (BitVec.neg_eq_iff_eq_neg.mp habs)
    · exact .inl habs
  · rintro (rfl | rfl) <;> decide

namespace IbltSketch

variable [IbltHash]

/-! ## The operations of the code -/

omit [IbltHash] in
def subCell (cell other : IbltCell) : Checked IbltCell := do
  let count ← subCount cell.count other.count
  pure ⟨count, cell.idSum ^^^ other.idSum, cell.hashSum ^^^ other.hashSum⟩

omit [IbltHash] in
def subtractChecked (sketch other : IbltSketch) :
    Checked (Except ReconciliationError IbltSketch) :=
  if sketch.cells.length ≠ other.cells.length then pure (.error .invalidSketch)
  else do
    let cells ← (sketch.cells.zip other.cells).mapM (Function.uncurry subCell)
    pure (.ok { sketch with cells := cells })

omit [IbltHash] in
/-- A cell of the sketch; outside of it the code stops. -/
def readCell (sketch : IbltSketch) (index : Nat) : Checked IbltCell :=
  ⟨sketch.cellAt index, !decide (index < sketch.cells.length)⟩

def isPureChecked (sketch : IbltSketch) (index : Nat) : Checked Bool := do
  let cell ← sketch.readCell index
  let count ← absCount cell.count
  pure (count = 1 && sketch.getChecksum ⟨cell.idSum⟩ = cell.hashSum)

def clearElementChecked (id : NodeHash) (peeled : IbltCell) :
    List Nat → IbltSketch × List Nat → Checked (IbltSketch × List Nat)
  | [], state => pure state
  | index :: rest, (sketch, pureCells) => do
      let cell ← sketch.readCell index
      let count ← subCount cell.count peeled.count
      let cleared : IbltCell :=
        ⟨count, cell.idSum ^^^ id.bytes, cell.hashSum ^^^ peeled.hashSum⟩
      let sketch := { sketch with cells := sketch.cells.set index cleared }
      let becamePure ← sketch.isPureChecked index
      clearElementChecked id peeled rest
        (sketch, if becamePure then index :: pureCells else pureCells)

namespace Decoding

def peelChecked (decoding : Decoding) (cell : IbltCell) :
    Checked (Except ReconciliationError Decoding) :=
  let found := decoding.find cell
  if dMax decoding.sketch < found.inSelf.length + found.inOther.length then
    pure (.error (.decodingFailed found.stats))
  else do
    let (sketch, pureCells) ← clearElementChecked ⟨cell.idSum⟩ cell
      (decoding.sketch.getIndices ⟨cell.idSum⟩) (decoding.sketch, decoding.pureCells)
    pure (.ok { found with
      sketch := sketch
      pureCells := pureCells })

/-- A cell taken off the stack. -/
def pop (decoding : Decoding) (rest : List Nat) : Decoding :=
  { decoding with
    pureCells := rest
    stats := { decoding.stats with iterations := decoding.stats.iterations + 1 } }

def peelAllChecked : Nat → Decoding → Checked (Except ReconciliationError Decoding)
  | 0, decoding => pure (.ok decoding)
  | fuel + 1, decoding =>
      match decoding.pureCells with
      | [] => pure (.ok decoding)
      | index :: rest => do
          if ← (decoding.pop rest).sketch.isPureChecked index then
            let cell ← (decoding.pop rest).sketch.readCell index
            match ← (decoding.pop rest).peelChecked cell with
            | .error error => pure (.error error)
            | .ok decoding => peelAllChecked fuel decoding
          else peelAllChecked fuel (decoding.pop rest)

end Decoding

/-- The cells that are pure at first, the last one on top. -/
def findPure (sketch : IbltSketch) : List Nat → List Nat → Checked (List Nat)
  | [], pureCells => pure pureCells
  | index :: rest, pureCells => do
      if ← sketch.isPureChecked index then findPure sketch rest (index :: pureCells)
      else findPure sketch rest pureCells

def decodeChecked (sketch : IbltSketch) :
    Checked (Except ReconciliationError (List NodeHash × List NodeHash × DecodingStats)) := do
  let pureCells ← sketch.findPure (List.range sketch.cells.length) []
  match ← Decoding.peelAllChecked (Decoding.rounds sketch)
      { Decoding.start sketch with pureCells := pureCells } with
  | .error error => pure (.error error)
  | .ok decoding => pure decoding.finish

/-- The sketch of a peer is reduced by that of this side and decoded. -/
def reconcileChecked (sketch other : IbltSketch) :
    Checked (Except ReconciliationError (List NodeHash × List NodeHash × DecodingStats)) := do
  match ← sketch.subtractChecked other with
  | .error error => pure (.error error)
  | .ok difference => difference.decodeChecked

/-! ## The values are those of the sketches -/

omit [IbltHash] in
theorem value_subtractChecked (sketch other : IbltSketch) :
    (sketch.subtractChecked other).value = sketch.subtract other := by
  unfold subtractChecked subtract
  split
  · rfl
  · rw [Checked.value_bind, Checked.value_mapM, ← List.map_uncurry_zip_eq_zipWith]
    rfl

theorem value_isPureChecked (sketch : IbltSketch) (index : Nat) :
    (sketch.isPureChecked index).value = sketch.isPure index := by
  have hvalue : (sketch.isPureChecked index).value =
      ((sketch.cellAt index).count.abs = 1 &&
        sketch.getChecksum ⟨(sketch.cellAt index).idSum⟩ = (sketch.cellAt index).hashSum : Bool) :=
    rfl
  rw [hvalue, isPure_eq, passes]
  congr 1
  rw [← Bool.decide_or]
  exact decide_eq_decide.mpr abs_eq_one_iff

variable {index : Nat} {sketch : IbltSketch}

omit [IbltHash] in
theorem getElem?_eq_cellAt (hindex : index < sketch.cells.length) :
    sketch.cells[index]? = some (sketch.cellAt index) := by
  rw [cellAt, List.getElem?_eq_getElem hindex]
  rfl

omit [IbltHash] in
theorem cellAt_of_le (hindex : sketch.cells.length ≤ index) : sketch.cellAt index = 0 := by
  rw [cellAt, List.getElem?_eq_none hindex]
  rfl

omit [IbltHash] in
theorem set_eq_modifyCell (sketch : IbltSketch) (f : IbltCell → IbltCell) (index : Nat) :
    { sketch with cells := sketch.cells.set index (f (sketch.cellAt index)) } =
      sketch.modifyCell f index := by
  have hcells : sketch.cells.set index (f (sketch.cellAt index)) =
      sketch.cells.modify index f := by
    refine List.ext_getElem (by simp) fun other hother _ => ?_
    rw [List.length_set] at hother
    rw [List.getElem_set, List.getElem_modify]
    split
    next heq =>
      subst heq
      exact congrArg f (Option.some.inj ((List.getElem?_eq_getElem hother).symm.trans
        (getElem?_eq_cellAt hother))).symm
    next => rfl
  rw [modifyCell, hcells]

/-- What is taken out of a cell when an element is peeled. -/
def takeOut (id : NodeHash) (peeled cell : IbltCell) : IbltCell :=
  ⟨cell.count - peeled.count, cell.idSum ^^^ id.bytes, cell.hashSum ^^^ peeled.hashSum⟩

theorem clearElementChecked_cons (id : NodeHash) (peeled : IbltCell) (index : Nat)
    (rest : List Nat) (sketch : IbltSketch) (pureCells : List Nat) :
    clearElementChecked id peeled (index :: rest) (sketch, pureCells) = (do
      let cell ← sketch.readCell index
      let _ ← subCount cell.count peeled.count
      let becamePure ← (sketch.modifyCell (takeOut id peeled) index).isPureChecked index
      clearElementChecked id peeled rest (sketch.modifyCell (takeOut id peeled) index,
        if becamePure then index :: pureCells else pureCells)) := by
  rw [← set_eq_modifyCell]
  rfl

theorem value_clearElementChecked (id : NodeHash) (peeled : IbltCell) (indices : List Nat)
    (sketch : IbltSketch) (pureCells : List Nat) :
    (clearElementChecked id peeled indices (sketch, pureCells)).value =
      clearElement id peeled indices (sketch, pureCells) := by
  induction indices generalizing sketch pureCells with
  | nil => rfl
  | cons index rest ih =>
      rw [clearElementChecked_cons]
      simp only [Checked.value_bind, value_isPureChecked, ih]
      rfl

theorem value_findPure (sketch : IbltSketch) (indices pureCells : List Nat) :
    (sketch.findPure indices pureCells).value =
      (indices.filter sketch.isPure).reverse ++ pureCells := by
  induction indices generalizing pureCells with
  | nil => rfl
  | cons index rest ih =>
      rw [findPure, Checked.value_bind, value_isPureChecked, List.filter_cons]
      cases sketch.isPure index with
      | true =>
          rw [if_pos rfl, if_pos rfl, ih, List.reverse_cons, List.append_assoc]
          rfl
      | false =>
          rw [if_neg Bool.false_ne_true, if_neg Bool.false_ne_true, ih]

namespace Decoding

theorem value_peelChecked (decoding : Decoding) (cell : IbltCell) :
    (decoding.peelChecked cell).value = decoding.peel cell := by
  unfold peelChecked peel
  simp only
  split
  · rfl
  · rw [Checked.value_bind, value_clearElementChecked]
    rfl

variable {decoding : Decoding} {index : Nat} {rest : List Nat}

/-- One round of the loop. -/
theorem peelAll_cons (hstack : decoding.pureCells = index :: rest) (fuel : Nat) :
    decoding.peelAll (fuel + 1) =
      if (decoding.pop rest).sketch.isPure index then
        ((decoding.pop rest).peel (decoding.sketch.cellAt index)).bind (peelAll fuel)
      else (decoding.pop rest).peelAll fuel := by
  have hround : decoding.peelAll (fuel + 1) =
      if (decoding.pop rest).sketch.isPure index then
        match (decoding.pop rest).peel (decoding.sketch.cellAt index) with
        | .error error => Except.error error
        | .ok next => peelAll fuel next
      else (decoding.pop rest).peelAll fuel := by
    rw [peelAll, hstack]
    rfl
  rw [hround]
  cases (decoding.pop rest).peel (decoding.sketch.cellAt index) <;> rfl

theorem peelAllChecked_cons (hstack : decoding.pureCells = index :: rest) (fuel : Nat) :
    decoding.peelAllChecked (fuel + 1) = (do
      if ← (decoding.pop rest).sketch.isPureChecked index then
        let cell ← (decoding.pop rest).sketch.readCell index
        match ← (decoding.pop rest).peelChecked cell with
        | .error error => pure (.error error)
        | .ok decoding => peelAllChecked fuel decoding
      else peelAllChecked fuel (decoding.pop rest)) := by
  rw [peelAllChecked, hstack]

theorem value_peelAllChecked (fuel : Nat) (decoding : Decoding) :
    (peelAllChecked fuel decoding).value = peelAll fuel decoding := by
  induction fuel generalizing decoding with
  | zero => rfl
  | succ fuel ih =>
      cases hstack : decoding.pureCells with
      | nil =>
          rw [peelAllChecked, peelAll, hstack]
          rfl
      | cons index rest =>
          rw [peelAll_cons hstack, peelAllChecked_cons hstack, Checked.value_bind,
            value_isPureChecked]
          split
          · rw [Checked.value_bind, Checked.value_bind, value_peelChecked]
            have hcell : ((decoding.pop rest).sketch.readCell index).value =
              decoding.sketch.cellAt index := rfl
            rw [hcell]
            cases (decoding.pop rest).peel (decoding.sketch.cellAt index) with
            | error error => rfl
            | ok next => exact ih next
          · exact ih _

end Decoding

theorem value_decodeChecked (sketch : IbltSketch) :
    sketch.decodeChecked.value = sketch.decode := by
  have hstart : { Decoding.start sketch with
      pureCells := ((List.range sketch.cells.length).filter sketch.isPure).reverse ++ [] } =
      Decoding.start sketch := by
    rw [List.append_nil]
    rfl
  rw [decodeChecked, Checked.value_bind, value_findPure, hstart, Checked.value_bind,
    Decoding.value_peelAllChecked, decode]
  cases Decoding.peelAll (Decoding.rounds sketch) (Decoding.start sketch) <;> rfl

/-- Where the code does not stop, it comes to what the sketches say. -/
theorem value_reconcileChecked (sketch other : IbltSketch) :
    (sketch.reconcileChecked other).value = (sketch.subtract other).bind decode := by
  rw [reconcileChecked, Checked.value_bind, value_subtractChecked]
  cases sketch.subtract other with
  | error error => rfl
  | ok difference => exact difference.value_decodeChecked

/-! ## Where the code stops -/

theorem overflowed_isPureChecked :
    (sketch.isPureChecked index).overflowed = false ↔
      index < sketch.cells.length ∧ Moderate (sketch.cellAt index).count.toInt := by
  have hflag : (sketch.isPureChecked index).overflowed =
      (!decide (index < sketch.cells.length) ||
        ((absCount (sketch.cellAt index).count).overflowed || false)) := rfl
  rw [hflag, Bool.or_false, Bool.or_eq_false_iff, overflowed_absCount, Bool.not_eq_false',
    decide_eq_true_iff]

/-- Taking an element out of its cells changes the count of each of them once. -/
theorem overflowed_clearElementChecked (id : NodeHash) (peeled : IbltCell) (pureCells : List Nat)
    (hnodup : indices.Nodup) (hbound : ∀ index ∈ indices, index < sketch.cells.length) :
    (clearElementChecked id peeled indices (sketch, pureCells)).overflowed = false ↔
      ∀ index ∈ indices,
        Moderate ((sketch.cellAt index).count.toInt - peeled.count.toInt) := by
  induction indices generalizing sketch pureCells with
  | nil => exact iff_of_true rfl nofun
  | cons index rest ih =>
      obtain ⟨hfirst, hrest⟩ := List.nodup_cons.mp hnodup
      obtain ⟨hindex, hbelow⟩ := List.forall_mem_cons.mp hbound
      have hlength : (sketch.modifyCell (takeOut id peeled) index).cells.length =
          sketch.cells.length := congrArg Prod.fst (sketch.shape_modifyCell _ index)
      have hread : (sketch.readCell index).overflowed = false :=
        (Bool.not_eq_false' _).mpr (decide_eq_true hindex)
      have hcleared : (sketch.modifyCell (takeOut id peeled) index).cellAt index =
          takeOut id peeled (sketch.cellAt index) := by
        rw [cellAt_modifyCell _ hindex, if_pos rfl]
      have hothers : ∀ other ∈ rest,
          (sketch.modifyCell (takeOut id peeled) index).cellAt other = sketch.cellAt other := by
        intro other hother
        rw [cellAt_modifyCell _ hindex, if_neg]
        rintro rfl
        exact hfirst hother
      rw [clearElementChecked_cons]
      simp only [Checked.overflowed_bind, hread, Bool.false_or, Bool.or_eq_false_iff]
      rw [ih _ hrest fun other hother => hlength ▸ hbelow other hother, ← and_assoc,
        List.forall_mem_cons]
      refine and_congr ?_ (forall₂_congr fun other hother => by rw [hothers other hother])
      rw [overflowed_isPureChecked, hcleared, hlength, and_iff_right hindex,
        ← overflowed_absCount]
      exact overflowed_sub_abs

theorem overflowed_findPure (pureCells : List Nat) :
    (sketch.findPure indices pureCells).overflowed = false ↔
      ∀ index ∈ indices,
        index < sketch.cells.length ∧ Moderate (sketch.cellAt index).count.toInt := by
  induction indices generalizing pureCells with
  | nil => exact iff_of_true rfl nofun
  | cons index rest ih =>
      rw [findPure, Checked.overflowed_bind, Bool.or_eq_false_iff, overflowed_isPureChecked,
        List.forall_mem_cons]
      refine and_congr Iff.rfl ?_
      split <;> exact ih _

namespace Decoding

variable {decoding next : Decoding} {cell : IbltCell} {index : Nat} {rest : List Nat}

/-- The element on top of the stack, if it is peeled, leaves moderate counts behind. -/
def Removable (decoding : Decoding) : Prop :=
  ∀ index rest, decoding.pureCells = index :: rest → decoding.sketch.isPure index = true →
    decoding.found < dMax decoding.sketch →
    ∀ other ∈ decoding.sketch.getIndices ⟨(decoding.sketch.cellAt index).idSum⟩,
      Moderate ((decoding.sketch.cellAt other).count.toInt -
        (decoding.sketch.cellAt index).count.toInt)

/-- The counts are moderate and the stack names cells of the sketch. -/
structure Steady (decoding : Decoding) : Prop where
  counts : ∀ index, Moderate (decoding.sketch.cellAt index).count.toInt
  stack : ∀ index ∈ decoding.pureCells, index < decoding.sketch.cells.length

theorem overflowed_peelChecked :
    (decoding.peelChecked cell).overflowed = false ↔
      (decoding.found < dMax decoding.sketch →
        ∀ other ∈ decoding.sketch.getIndices ⟨cell.idSum⟩,
          Moderate ((decoding.sketch.cellAt other).count.toInt - cell.count.toInt)) := by
  have hfound : (decoding.find cell).inSelf.length + (decoding.find cell).inOther.length =
      decoding.found + 1 := found_find decoding cell
  unfold peelChecked
  simp only
  rw [hfound]
  split
  next hlimit => exact iff_of_true rfl fun hroom => absurd hroom (by omega)
  next hroom =>
    rw [forall_prop_of_true (by omega), Checked.overflowed_bind, Checked.pure_eq, Bool.or_false]
    exact overflowed_clearElementChecked _ _ _ (decoding.sketch.nodup_getIndices _)
      fun _ hmem => lt_of_mem_getIndices hmem

omit [IbltHash] in
theorem Steady.pop (h : decoding.Steady) (hstack : decoding.pureCells = index :: rest) :
    (decoding.pop rest).Steady :=
  ⟨h.counts, fun other hother => h.stack other (hstack ▸ List.mem_cons_of_mem _ hother)⟩

variable {sketch : IbltSketch} {fuel : Nat}

/-- Only cells of the element come to the stack. -/
theorem mem_clearElement {id : NodeHash} {pureCells : List Nat} {other : Nat}
    (hmem : other ∈ (clearElement id cell indices (sketch, pureCells)).2) :
    other ∈ pureCells ∨ other ∈ indices := by
  induction indices generalizing sketch pureCells with
  | nil => exact .inl hmem
  | cons index rest ih =>
      rcases ih hmem with hmem | hmem
      · split at hmem
        · rcases List.mem_cons.mp hmem with rfl | hmem
          · exact .inr List.mem_cons_self
          · exact .inl hmem
        · exact .inl hmem
      · exact .inr (List.mem_cons_of_mem _ hmem)

theorem Steady.peel (h : decoding.Steady) (hok : decoding.peel cell = .ok next)
    (hmoderate : ∀ other ∈ decoding.sketch.getIndices ⟨cell.idSum⟩,
      Moderate ((decoding.sketch.cellAt other).count.toInt - cell.count.toInt)) :
    next.Steady := by
  obtain ⟨-, -, -, hcleared⟩ := peel_ok hok
  have hsketch := congrArg Prod.fst hcleared
  have hpushed := congrArg Prod.snd hcleared
  simp only at hsketch hpushed
  have hlength : next.sketch.cells.length = decoding.sketch.cells.length :=
    congrArg Prod.fst (shape_peel hok)
  refine ⟨fun index => ?_, fun index hmem => ?_⟩
  · rw [hsketch, cellAt_clearElement rfl]
    split
    next hmem =>
      have hcount := hmoderate index hmem
      have hsub : (decoding.sketch.cellAt index - cell).count =
        (decoding.sketch.cellAt index).count - cell.count := rfl
      rwa [hsub, toInt_subCount hcount.fits]
    next => exact h.counts index
  · rw [hpushed] at hmem
    rw [hlength]
    rcases mem_clearElement hmem with hmem | hmem
    · exact h.stack index hmem
    · exact lt_of_mem_getIndices hmem

theorem lt_dMax_of_peel (hok : decoding.peel cell = .ok next) :
    decoding.found < dMax decoding.sketch := by
  obtain ⟨hmore, hlimit⟩ := found_peel hok
  omega

theorem dMax_le_of_peel {error : ReconciliationError}
    (herror : decoding.peel cell = .error error) : dMax decoding.sketch ≤ decoding.found := by
  have hfound : (decoding.find cell).inSelf.length + (decoding.find cell).inOther.length =
      decoding.found + 1 := found_find decoding cell
  unfold Decoding.peel at herror
  simp only at herror
  split at herror
  next hlimit => omega
  next => cases herror

/-- The loop stops where it comes to an element that cannot be removed, and nowhere else. -/
theorem overflowed_peelAllChecked (h : decoding.Steady) :
    (decoding.peelAllChecked fuel).overflowed = false ↔
      ∀ rounds < fuel, ∀ reached, decoding.peelAll rounds = .ok reached → reached.Removable := by
  -- By induction on the fuel: round zero is this cell, the later rounds are those of the rest.
  induction fuel generalizing decoding with
  | zero => exact iff_of_true rfl fun _ hlt => absurd hlt (Nat.not_lt_zero _)
  | succ fuel ih =>
      have hzero : (∀ reached, decoding.peelAll 0 = .ok reached → reached.Removable) ↔
          decoding.Removable :=
        ⟨fun h => h decoding rfl, fun h reached hok => Except.ok.inj hok ▸ h⟩
      rw [Nat.forall_lt_succ_left, hzero]
      cases hstack : decoding.pureCells with
      | nil =>
          have hremovable : decoding.Removable := by
            intro index rest hcons
            rw [hstack] at hcons
            cases hcons
          have hflag : (decoding.peelAllChecked (fuel + 1)).overflowed = false := by
            rw [peelAllChecked, hstack]
            rfl
          refine iff_of_true hflag ⟨hremovable, fun rounds _ reached hok => ?_⟩
          rw [peelAll, hstack] at hok
          exact Except.ok.inj hok ▸ hremovable
      | cons index rest =>
          have hpop := h.pop hstack
          have hread : index < (decoding.pop rest).sketch.cells.length :=
            h.stack index (hstack ▸ List.mem_cons_self)
          have htest : ((decoding.pop rest).sketch.isPureChecked index).overflowed = false :=
            overflowed_isPureChecked.mpr ⟨hread, h.counts index⟩
          have hcell : (decoding.pop rest).sketch.readCell index =
              ⟨decoding.sketch.cellAt index, false⟩ :=
            congrArg (Checked.mk _) ((Bool.not_eq_false' _).mpr (decide_eq_true hread))
          simp only [peelAll_cons hstack]
          rw [peelAllChecked_cons hstack, Checked.overflowed_bind, htest, Bool.false_or,
            value_isPureChecked]
          split
          next hpure =>
            rw [Checked.bind_of_fits hcell, Checked.overflowed_bind, value_peelChecked,
              Bool.or_eq_false_iff, overflowed_peelChecked]
            cases hpeel : (decoding.pop rest).peel (decoding.sketch.cellAt index) with
            | error error =>
                -- A sketch that is full refuses the element before any count changes.
                have hfull := dMax_le_of_peel hpeel
                refine iff_of_true ⟨fun hroom => absurd hroom (Nat.not_lt.mpr hfull), rfl⟩
                  ⟨fun _ _ _ _ hroom => absurd hroom (Nat.not_lt.mpr hfull), nofun⟩
            | ok next =>
                have hroom := lt_dMax_of_peel hpeel
                have hremovable : (∀ other ∈ decoding.sketch.getIndices
                    ⟨(decoding.sketch.cellAt index).idSum⟩,
                      Moderate ((decoding.sketch.cellAt other).count.toInt -
                        (decoding.sketch.cellAt index).count.toInt)) ↔ decoding.Removable := by
                  refine ⟨fun hmoderate other others hcons _ _ => ?_, fun hremovable =>
                    hremovable index rest hstack hpure hroom⟩
                  rw [hstack] at hcons
                  cases hcons
                  exact hmoderate
                rw [forall_prop_of_true hroom]
                refine (and_congr hremovable Iff.rfl).trans
                  (and_congr_right fun hmoderate => ih (hpop.peel hpeel (hremovable.mpr hmoderate)))
          next hpure =>
            have hremovable : decoding.Removable := by
              intro other others hcons hother
              rw [hstack] at hcons
              cases hcons
              exact absurd hother hpure
            rw [and_iff_right hremovable]
            exact ih hpop

/-! ## Peeling ends -/

theorem length_peel_le (hok : decoding.peel cell = .ok next) :
    next.pureCells.length ≤ decoding.pureCells.length + indexCount := by
  obtain ⟨-, -, -, hcleared⟩ := peel_ok hok
  have hpushed := congrArg Prod.snd hcleared
  simp only at hpushed
  obtain ⟨-, hlength, -⟩ := clearElement_snd ⟨cell.idSum⟩ cell decoding.pureCells
    (decoding.sketch.nodup_getIndices ⟨cell.idSum⟩) fun _ hmem => lt_of_mem_getIndices hmem
  rw [← hpushed] at hlength
  exact hlength.trans (Nat.add_le_add_left (length_getIndices_le _ _) _)

/-- Each round takes a cell off the stack, and only as many rounds as there may be differences
put some back, whatever the cells hold. -/
theorem pureCells_of_peelAll (hfound : decoding.found ≤ dMax decoding.sketch)
    (hfuel : decoding.pureCells.length +
      indexCount * (dMax decoding.sketch - decoding.found) < fuel)
    (hok : decoding.peelAll fuel = .ok final) : final.pureCells = [] := by
  induction fuel generalizing decoding with
  | zero => exact absurd hfuel (Nat.not_lt_zero _)
  | succ fuel ih =>
      cases hstack : decoding.pureCells with
      | nil =>
          rw [peelAll, hstack] at hok
          rw [← Except.ok.inj hok, hstack]
      | cons index rest =>
          rw [hstack, List.length_cons] at hfuel
          rw [peelAll_cons hstack] at hok
          split at hok
          next hpure =>
            cases hpeel : (decoding.pop rest).peel (decoding.sketch.cellAt index) with
            | error error =>
                rw [hpeel] at hok
                cases hok
            | ok next =>
                rw [hpeel] at hok
                have hlength : next.pureCells.length ≤ rest.length + indexCount :=
                  length_peel_le hpeel
                have hsteps := found_peel hpeel
                obtain ⟨hmore, hlimit⟩ : next.found = decoding.found + 1 ∧
                  next.found ≤ dMax decoding.sketch := hsteps
                have hsize : dMax next.sketch = dMax decoding.sketch := by
                  have hcells : next.sketch.cells.length = decoding.sketch.cells.length :=
                    congrArg Prod.fst (shape_peel hpeel)
                  rw [dMax, dMax, hcells]
                refine ih (hsize ▸ hlimit) ?_ hok
                rw [hsize]
                simp only [indexCount] at hlength hfuel ⊢
                omega
          next =>
            have hpopped : rest.length +
                indexCount * (dMax decoding.sketch - decoding.found) < fuel := by omega
            exact @ih (decoding.pop rest) hfound hpopped hok

theorem length_start_le (sketch : IbltSketch) :
    (start sketch).pureCells.length ≤ sketch.cells.length := by
  rw [start, List.length_reverse]
  exact (List.length_filter_le _ _).trans_eq List.length_range

/-- The rounds suffice for any sketch. -/
theorem pureCells_of_rounds (hfuel : rounds sketch ≤ fuel)
    (hok : (start sketch).peelAll fuel = .ok final) : final.pureCells = [] := by
  have hstart := length_start_le sketch
  refine pureCells_of_peelAll (Nat.zero_le _) ?_ hok
  have hlimit : indexCount * (dMax (start sketch).sketch - (start sketch).found) ≤
    indexCount * dMax sketch := Nat.mul_le_mul_left _ (Nat.sub_le _ _)
  rw [rounds, Nat.mul_succ] at hfuel
  omega

end Decoding

/-! ## The words of an element -/

/-- The words drawn for an element name enough different cells. -/
def Scatters (sketch : IbltSketch) : Prop :=
  ∀ id, min indexCount sketch.cells.length ≤
    ((Finset.range IbltHash.draws).image fun position =>
      (IbltHash.indexWord sketch.kIblt id position).toNat % sketch.cells.length).card

omit [IbltHash] in
/-- Drawing ends early with enough cells, or no word was passed over. -/
theorem pickIndices_done (words : Nat → BitVec 32) (cellCount fuel position : Nat)
    (picked : List Nat) :
    min indexCount cellCount ≤ (pickIndices words cellCount fuel position picked).length ∨
      ∀ drawn, position ≤ drawn → drawn < position + fuel →
        (words drawn).toNat % cellCount ∈ pickIndices words cellCount fuel position picked := by
  induction fuel generalizing position picked with
  | zero => exact .inr fun drawn hlow hhigh => absurd hlow (by omega)
  | succ fuel ih =>
      unfold pickIndices
      split
      next =>
        simp only
        obtain ⟨more, hmore⟩ : ∃ more, more =
            if picked.contains ((words position).toNat % cellCount) = true then picked
            else picked ++ [(words position).toNat % cellCount] := ⟨_, rfl⟩
        have hmem : (words position).toNat % cellCount ∈ more := by
          rw [hmore]
          split
          next hcontains => exact List.contains_iff_mem.mp hcontains
          next => exact List.mem_append_right _ List.mem_cons_self
        rw [← hmore]
        refine (ih (position + 1) more).imp_right fun hlater drawn hlow hhigh => ?_
        rcases Nat.eq_or_lt_of_le hlow with rfl | hlow
        · exact subset_pickIndices hmem
        · exact hlater drawn hlow (by omega)
      next hroom =>
        left
        rw [Bool.and_eq_true, decide_eq_true_iff, decide_eq_true_iff] at hroom
        omega

/-- The loop that draws the cells of an element has come to its end. -/
theorem Scatters.length_getIndices (h : sketch.Scatters) (id : NodeHash) :
    min indexCount sketch.cells.length ≤ (sketch.getIndices id).length := by
  rw [getIndices, (List.perm_insertionSort _ _).length_eq]
  rcases pickIndices_done (IbltHash.indexWord sketch.kIblt id) sketch.cells.length
    IbltHash.draws 0 [] with hdone | hdrawn
  · exact hdone
  · refine (h id).trans ((Finset.card_le_card fun index hindex => ?_).trans
      (List.toFinset_card_le _))
    obtain ⟨position, hposition, rfl⟩ := Finset.mem_image.mp hindex
    rw [List.mem_toFinset]
    exact hdrawn position (Nat.zero_le _) (by
      rw [Nat.zero_add]
      exact Finset.mem_range.mp hposition)

/-! ## Reconciling with a peer -/

/-- Every loop ends and the code does not stop on the way. -/
structure Total (sketch other : IbltSketch) : Prop where
  draws : ∀ id, min indexCount sketch.cells.length ≤ (sketch.getIndices id).length
  ends : ∀ difference, sketch.subtract other = .ok difference → ∀ final,
    (Decoding.start difference).peelAll (Decoding.rounds difference) = .ok final →
    final.pureCells = []
  runs : (sketch.reconcileChecked other).overflowed = false

/-- The differences of the counts are moderate, and so is what any removal is about to leave. -/
structure Harmless (sketch other : IbltSketch) : Prop where
  differences : ∀ index,
    Moderate ((sketch.cellAt index).count.toInt - (other.cellAt index).count.toInt)
  removals : ∀ difference, sketch.subtract other = .ok difference → ∀ rounds reached,
    (Decoding.start difference).peelAll rounds = .ok reached → reached.Removable

section Reconciling

variable {sketch other : IbltSketch}

omit [IbltHash] in
theorem overflowed_subtractChecked (hlength : sketch.cells.length = other.cells.length) :
    (sketch.subtractChecked other).overflowed = false ↔ ∀ index, Checked.FitsSigned 32
      ((sketch.cellAt index).count.toInt - (other.cellAt index).count.toInt) := by
  have hflag : ∀ cells : IbltCell × IbltCell,
      ¬ (Function.uncurry subCell cells).overflowed = true ↔
        Checked.FitsSigned 32 (cells.1.count.toInt - cells.2.count.toInt) := by
    intro cells
    rw [Function.uncurry, subCell, Checked.overflowed_bind, Checked.pure_eq, Bool.or_false,
      subCount, Bool.not_eq_true', decide_eq_false_iff_not, not_not]
  rw [subtractChecked, if_neg (not_not.mpr hlength), Checked.overflowed_bind,
    Checked.overflowed_mapM, Checked.pure_eq, Bool.or_false, List.any_eq_false]
  constructor
  · intro h index
    by_cases hindex : index < sketch.cells.length
    · have hmem : (sketch.cellAt index, other.cellAt index) ∈ sketch.cells.zip other.cells :=
        List.mem_iff_getElem?.mpr ⟨index, List.getElem?_zip_eq_some.mpr
          ⟨getElem?_eq_cellAt hindex, getElem?_eq_cellAt (hlength ▸ hindex)⟩⟩
      exact (hflag (sketch.cellAt index, other.cellAt index)).mp (h _ hmem)
    · rw [Nat.not_lt] at hindex
      rw [cellAt_of_le hindex, cellAt_of_le (hlength ▸ hindex)]
      decide
  · intro h cells hmem
    obtain ⟨index, hindex⟩ := List.mem_iff_getElem?.mp hmem
    obtain ⟨hfirst, hsecond⟩ := List.getElem?_zip_eq_some.mp hindex
    have hcell : sketch.cellAt index = cells.1 := congrArg (Option.getD · 0) hfirst
    have hother : other.cellAt index = cells.2 := congrArg (Option.getD · 0) hsecond
    rw [hflag, ← hcell, ← hother]
    exact h index

theorem overflowed_decodeChecked :
    sketch.decodeChecked.overflowed = false ↔
      (∀ index, Moderate (sketch.cellAt index).count.toInt) ∧ ∀ rounds reached,
        (Decoding.start sketch).peelAll rounds = .ok reached → reached.Removable := by
  have hstart : { Decoding.start sketch with
      pureCells := (sketch.findPure (List.range sketch.cells.length) []).value } =
      Decoding.start sketch := by
    rw [value_findPure, List.append_nil]
    rfl
  have hfinish : ∀ result : Except ReconciliationError Decoding, (match result with
      | .error error => pure (.error error)
      | .ok decoding => pure decoding.finish : Checked (Except ReconciliationError
        (List NodeHash × List NodeHash × DecodingStats))).overflowed = false := by
    intro result
    cases result <;> rfl
  rw [decodeChecked, Checked.overflowed_bind, hstart, Checked.overflowed_bind, hfinish,
    Bool.or_false, Bool.or_eq_false_iff, overflowed_findPure]
  have hcounts : (∀ index ∈ List.range sketch.cells.length, index < sketch.cells.length ∧
      Moderate (sketch.cellAt index).count.toInt) ↔
        ∀ index, Moderate (sketch.cellAt index).count.toInt := by
    constructor
    · intro h index
      by_cases hindex : index < sketch.cells.length
      · exact (h index (List.mem_range.mpr hindex)).2
      · rw [cellAt_of_le (Nat.not_lt.mp hindex)]
        decide
    · exact fun h index hmem => ⟨List.mem_range.mp hmem, h index⟩
  rw [hcounts]
  refine and_congr_right fun hmoderate => ?_
  have hsteady : (Decoding.start sketch).Steady := by
    refine ⟨hmoderate, fun index hmem => ?_⟩
    rw [Decoding.start, List.mem_reverse, List.mem_filter] at hmem
    exact List.mem_range.mp hmem.1
  rw [Decoding.overflowed_peelAllChecked hsteady]
  constructor
  · intro h rounds reached hreached
    by_cases hrounds : rounds < Decoding.rounds sketch
    · exact h rounds hrounds reached hreached
    · -- past the rounds that suffice nothing is left to remove
      intro index rest hcons
      rw [Decoding.pureCells_of_rounds (Nat.not_lt.mp hrounds) hreached] at hcons
      cases hcons
  · exact fun h rounds _ => h rounds

/-- Reconciling with the sketch of a peer ends whatever its cells hold, and the counts are
safe only for some. -/
theorem total_iff_harmless (sketch other : IbltSketch)
    (hlength : sketch.cells.length = other.cells.length) (hwords : sketch.Scatters) :
    Total sketch other ↔ Harmless sketch other := by
  cases hsubtract : sketch.subtract other with
  | error error =>
      rw [subtract, if_neg (not_not.mpr hlength)] at hsubtract
      cases hsubtract
  | ok difference =>
      obtain ⟨-, -, hcells⟩ := subtract_ok hsubtract
      have hends : ∀ final, (Decoding.start difference).peelAll (Decoding.rounds difference) =
          .ok final → final.pureCells = [] := fun _ => Decoding.pureCells_of_rounds le_rfl
      have hruns : (sketch.reconcileChecked other).overflowed = false ↔
          Harmless sketch other := by
        rw [reconcileChecked, Checked.overflowed_bind, value_subtractChecked, hsubtract,
          Bool.or_eq_false_iff, overflowed_subtractChecked hlength, overflowed_decodeChecked]
        have hcount : ∀ index, (difference.cellAt index).count =
            (sketch.cellAt index).count - (other.cellAt index).count := by
          intro index
          rw [hcells]
          rfl
        simp only [hcount]
        constructor
        · rintro ⟨hfits, hmoderate, hremovals⟩
          refine ⟨fun index => ?_, fun other hother => ?_⟩
          · rw [← toInt_subCount (hfits index)]
            exact hmoderate index
          · rw [hsubtract] at hother
            exact Except.ok.inj hother ▸ hremovals
        · intro h
          refine ⟨fun index => (h.differences index).fits, fun index => ?_,
            h.removals difference hsubtract⟩
          rw [toInt_subCount (h.differences index).fits]
          exact h.differences index
      constructor
      · exact fun h => hruns.mp h.runs
      · intro h
        refine ⟨hwords.length_getIndices, fun other hother => ?_, hruns.mpr h⟩
        rw [hsubtract] at hother
        exact Except.ok.inj hother ▸ hends

end Reconciling

/-! ## A margin for the removals -/

namespace Decoding

/-- The counts are as far from their limits as there are elements left to find. -/
def Slack (decoding : Decoding) : Prop :=
  ∀ index, |(decoding.sketch.cellAt index).count.toInt| + dMax decoding.sketch <
    2 ^ 31 + decoding.found

variable {decoding next : Decoding} {cell : IbltCell} {index : Nat} {rest : List Nat}

theorem toInt_of_isPure {sketch : IbltSketch} (hpure : sketch.isPure index = true) :
    (sketch.cellAt index).count.toInt = 1 ∨ (sketch.cellAt index).count.toInt = -1 := by
  rw [isPure_eq, passes, Bool.and_eq_true, Bool.or_eq_true, decide_eq_true_iff,
    decide_eq_true_iff] at hpure
  rcases hpure.1 with hcount | hcount
  · rw [hcount]
    exact .inl rfl
  · rw [hcount]
    exact .inr rfl

omit [IbltHash] in
theorem Slack.moderate (h : decoding.Slack) (hroom : decoding.found < dMax decoding.sketch)
    (hcount : cell.count.toInt = 1 ∨ cell.count.toInt = -1) (index : Nat) :
    Moderate ((decoding.sketch.cellAt index).count.toInt - cell.count.toInt) ∧
      |(decoding.sketch.cellAt index).count.toInt - cell.count.toInt| ≤
        |(decoding.sketch.cellAt index).count.toInt| + 1 := by
  have hslack := h index
  generalize (decoding.sketch.cellAt index).count.toInt = count at hslack ⊢
  rw [Moderate, ← abs_lt]
  have hstep : |count - cell.count.toInt| ≤ |count| + 1 := by
    refine (abs_sub _ _).trans (Int.add_le_add_left ?_ _)
    rcases hcount with hcount | hcount <;> rw [hcount] <;> decide
  refine ⟨?_, hstep⟩
  omega

theorem Slack.removable (h : decoding.Slack) : decoding.Removable := by
  intro index rest _ hpure hroom other _
  exact (h.moderate hroom (toInt_of_isPure hpure) other).1

theorem Slack.peel (h : decoding.Slack) (hcount : cell.count.toInt = 1 ∨ cell.count.toInt = -1)
    (hok : decoding.peel cell = .ok next) : next.Slack := by
  intro index
  have hroom := lt_dMax_of_peel hok
  obtain ⟨hmoderate, hstep⟩ := h.moderate hroom hcount index
  obtain ⟨hmore, -⟩ := found_peel hok
  obtain ⟨-, -, -, hcleared⟩ := peel_ok hok
  have hsketch := congrArg Prod.fst hcleared
  simp only at hsketch
  have hsize : dMax next.sketch = dMax decoding.sketch := by
    have hcells : next.sketch.cells.length = decoding.sketch.cells.length :=
      congrArg Prod.fst (shape_peel hok)
    rw [dMax, dMax, hcells]
  have hslack := h index
  rw [hsize, hmore, hsketch, cellAt_clearElement rfl]
  push_cast
  split
  next hmem =>
    have hsub : (decoding.sketch.cellAt index - cell).count =
      (decoding.sketch.cellAt index).count - cell.count := rfl
    rw [hsub, toInt_subCount hmoderate.fits]
    omega
  next => omega

theorem Slack.peelAll {rounds : Nat} (h : decoding.Slack)
    (hok : decoding.peelAll rounds = .ok reached) : reached.Slack := by
  induction rounds generalizing decoding with
  | zero => exact Except.ok.inj hok ▸ h
  | succ rounds ih =>
      cases hstack : decoding.pureCells with
      | nil =>
          rw [Decoding.peelAll, hstack] at hok
          exact Except.ok.inj hok ▸ h
      | cons index rest =>
          have hpop : (decoding.pop rest).Slack := h
          rw [peelAll_cons hstack] at hok
          split at hok
          next hpure =>
            cases hpeel : (decoding.pop rest).peel (decoding.sketch.cellAt index) with
            | error error =>
                rw [hpeel] at hok
                cases hok
            | ok next =>
                rw [hpeel] at hok
                exact ih (hpop.peel (toInt_of_isPure hpure) hpeel) hok
          next => exact ih hpop hok

end Decoding

/-- Counts that differ by less than the differences that may be found are no danger. -/
theorem harmless_of_margin {sketch other : IbltSketch}
    (hmargin : ∀ index, |(sketch.cellAt index).count.toInt - (other.cellAt index).count.toInt| +
      Decoding.dMax sketch < 2 ^ 31) : Harmless sketch other := by
  have hmoderate : ∀ index,
      Moderate ((sketch.cellAt index).count.toInt - (other.cellAt index).count.toInt) := by
    intro index
    have hindex := hmargin index
    rw [Moderate, ← abs_lt]
    omega
  refine ⟨hmoderate, fun difference hsubtract rounds reached hreached => ?_⟩
  obtain ⟨-, hshape, hcells⟩ := subtract_ok hsubtract
  refine Decoding.Slack.removable (Decoding.Slack.peelAll (fun index => ?_) hreached)
  have hsize : Decoding.dMax difference = Decoding.dMax sketch :=
    congrArg (fun shape : Nat × Option Bytes32 => (Tier.fromCellCount shape.1).dMax) hshape
  have hcount : ((Decoding.start difference).sketch.cellAt index).count =
      (sketch.cellAt index).count - (other.cellAt index).count := by
    have hstart : (Decoding.start difference).sketch = difference := rfl
    rw [hstart, hcells]
    rfl
  rw [hcount, toInt_subCount (hmoderate index).fits]
  have hfound : (Decoding.start difference).found = 0 := rfl
  have hstart : Decoding.dMax (Decoding.start difference).sketch = Decoding.dMax sketch := hsize
  rw [hfound, hstart]
  exact hmargin index

end IbltSketch

namespace Reference

open IbltSketch

/-- A sketch of two cells, as a peer may send it. -/
def received (first second : IbltCell) : IbltSketch := ⟨[first, second], none⟩

theorem scatters_received (first second : IbltCell) : (received first second).Scatters := by
  intro id
  have hword : ∀ position, position < IbltHash.draws →
      (id.bytes.toNat * 5 + position * 3) % 2 ^ 32 % 2 ∈
        (Finset.range IbltHash.draws).image fun position =>
          (IbltHash.indexWord none id position).toNat % 2 :=
    fun position hposition => Finset.mem_image.mpr ⟨position, Finset.mem_range.mpr hposition, rfl⟩
  have hrange : Finset.range 2 ⊆ (Finset.range IbltHash.draws).image fun position =>
      (IbltHash.indexWord none id position).toNat % 2 := by
    intro index hindex
    rw [Finset.mem_range] at hindex
    rcases Nat.mod_two_eq_zero_or_one (id.bytes.toNat * 5 + index) with hparity | hparity
    · have hmem := hword 0 (by decide)
      rwa [show (id.bytes.toNat * 5 + 0 * 3) % 2 ^ 32 % 2 = index by omega] at hmem
    · have hmem := hword 1 (by decide)
      rwa [show (id.bytes.toNat * 5 + 1 * 3) % 2 ^ 32 % 2 = index by omega] at hmem
  exact Finset.card_le_card hrange

/-- The least count minus one leaves the type; so does the greatest one when an element with the
count minus one is removed from it. -/
theorem not_total_received :
    ¬ Total (received ⟨BitVec.intMin 32, 0, 0⟩ 0) (encode 2 none [⟨5⟩]) ∧
      ¬ Total (received ⟨-1, 5, IbltHash.checksum none ⟨5⟩⟩ ⟨BitVec.intMax 32, 0, 0⟩)
        (newKeyed 2 none) :=
  ⟨fun h => absurd h.runs (by decide), fun h => absurd h.runs (by decide)⟩

theorem harmless_received : Harmless (received ⟨1, 6, 0⟩ ⟨2, 3, 4⟩) (encode 2 none [⟨5⟩]) := by
  refine harmless_of_margin fun index => ?_
  rcases index with _ | _ | index
  · decide
  · decide
  · rw [cellAt_of_le (Nat.le_add_left 2 index), cellAt_of_le (Nat.le_add_left 2 index)]
    decide

theorem total_received :
    Total (received ⟨1, 6, 0⟩ ⟨2, 3, 4⟩) (encode 2 none [⟨5⟩]) ↔
      Harmless (received ⟨1, 6, 0⟩ ⟨2, 3, 4⟩) (encode 2 none [⟨5⟩]) :=
  total_iff_harmless _ _ (by decide) (scatters_received _ _)

end Reference

end MerkleTox.Reconcile
