import Mathlib.Algebra.BigOperators.Group.List.Basic
import Mathlib.Algebra.Group.Pi.Basic
import MerkleTox.Core.Dag

/-! # Invertible Bloom lookup tables

`tox_reconcile::iblt`. A sketch adds up the elements of a set in its cells, each element in up
to four of them. Subtracting the sketch of another set leaves the elements that only one of
the two has, and peeling takes them out again: a cell that holds a single element names it.

A cell is a word for the count and xor sums of ids and checksums; cells form a commutative
group, in which the difference of two sketches is that of the sets.
-/

namespace MerkleTox.Reconcile

open MerkleTox.Core

variable {words : Nat → BitVec 32} {position index modified : Nat} {picked indices : List Nat}

@[ext]
structure IbltCell where
  count : BitVec 32
  idSum : Bytes32
  hashSum : BitVec 64
  deriving DecidableEq, Repr

namespace IbltCell

instance : Zero IbltCell := ⟨⟨0, 0, 0⟩⟩
instance : Add IbltCell := ⟨fun cell other =>
  ⟨cell.count + other.count, cell.idSum ^^^ other.idSum, cell.hashSum ^^^ other.hashSum⟩⟩
instance : Neg IbltCell := ⟨fun cell => ⟨-cell.count, cell.idSum, cell.hashSum⟩⟩
instance : Sub IbltCell := ⟨fun cell other =>
  ⟨cell.count - other.count, cell.idSum ^^^ other.idSum, cell.hashSum ^^^ other.hashSum⟩⟩

instance : AddCommGroup IbltCell where
  add_assoc first second third := by
    ext : 1
    · exact BitVec.add_assoc ..
    · exact BitVec.xor_assoc ..
    · exact BitVec.xor_assoc ..
  zero_add cell := by
    ext : 1
    · exact BitVec.zero_add _
    · exact BitVec.zero_xor
    · exact BitVec.zero_xor
  add_zero cell := by
    ext : 1
    · exact BitVec.add_zero _
    · exact BitVec.xor_zero
    · exact BitVec.xor_zero
  neg_add_cancel cell := by
    ext : 1
    · exact BitVec.add_left_neg _
    · exact BitVec.xor_self
    · exact BitVec.xor_self
  add_comm first second := by
    ext : 1
    · exact BitVec.add_comm ..
    · exact BitVec.xor_comm ..
    · exact BitVec.xor_comm ..
  sub_eq_add_neg first second := by
    ext : 1
    · exact BitVec.sub_eq_add_neg ..
    · rfl
    · rfl
  nsmul := nsmulRec
  zsmul := zsmulRec

end IbltCell

inductive Tier
  | tiny | small | medium | large
  deriving DecidableEq, Repr

namespace Tier

def cellCount : Tier → Nat
  | tiny => 16
  | small => 64
  | medium => 256
  | large => 1024

def fromCellCount (count : Nat) : Tier :=
  if count ≤ 16 then tiny
  else if count ≤ 64 then small
  else if count ≤ 256 then medium
  else large

/-- How many differences a sketch may have. -/
def dMax : Tier → Nat
  | tiny => 10
  | small => 40
  | medium => 170
  | large => 680

end Tier

structure DecodingStats where
  cellsPeeled : Nat
  iterations : Nat
  deriving DecidableEq, Repr

inductive ReconciliationError
  | decodingFailed (stats : DecodingStats)
  | invalidSketch
  deriving DecidableEq, Repr

/-- The keyed hashes of an element, under the key of the conversation or a fixed one: a stream
of words that the cells are drawn from, of which a reader takes `draws` at most, and the
checksum. -/
class IbltHash where
  draws : Nat
  draws_pos : 0 < draws
  indexWord : Option Bytes32 → NodeHash → Nat → BitVec 32
  checksum : Option Bytes32 → NodeHash → BitVec 64

structure IbltSketch where
  cells : List IbltCell
  kIblt : Option Bytes32
  deriving DecidableEq, Repr

namespace IbltSketch

/-- `K`: how many cells an element is put into. -/
def indexCount : Nat := 4

def newKeyed (cellCount : Nat) (kIblt : Option Bytes32) : IbltSketch :=
  ⟨List.replicate cellCount 0, kIblt⟩

/-- Subtract another sketch cell by cell. -/
def subtract (sketch other : IbltSketch) : Except ReconciliationError IbltSketch :=
  if sketch.cells.length ≠ other.cells.length then .error .invalidSketch
  else .ok { sketch with
    cells := List.zipWith (fun cell other : IbltCell =>
      ⟨cell.count - other.count, cell.idSum ^^^ other.idSum, cell.hashSum ^^^ other.hashSum⟩)
      sketch.cells other.cells }

/-- Distinct cells from a stream of words. -/
def pickIndices (words : Nat → BitVec 32) (cellCount : Nat) : Nat → Nat → List Nat → List Nat
  | 0, _, picked => picked
  | fuel + 1, position, picked =>
      if picked.length < indexCount && picked.length < cellCount then
        let index := (words position).toNat % cellCount
        pickIndices words cellCount fuel (position + 1)
          (if picked.contains index then picked else picked ++ [index])
      else picked

variable [IbltHash]

def getIndices (sketch : IbltSketch) (id : NodeHash) : List Nat :=
  (pickIndices (IbltHash.indexWord sketch.kIblt id) sketch.cells.length IbltHash.draws 0
    []).insertionSort (· ≤ ·)

def getChecksum (sketch : IbltSketch) (id : NodeHash) : BitVec 64 :=
  IbltHash.checksum sketch.kIblt id

def modifyCell (sketch : IbltSketch) (f : IbltCell → IbltCell) (index : Nat) : IbltSketch :=
  { sketch with cells := sketch.cells.modify index f }

def update (sketch : IbltSketch) (id : NodeHash) (delta : BitVec 32) : IbltSketch :=
  (sketch.getIndices id).foldl
    (modifyCell · fun cell =>
      ⟨cell.count + delta, cell.idSum ^^^ id.bytes, cell.hashSum ^^^ sketch.getChecksum id⟩)
    sketch

def insert (sketch : IbltSketch) (id : NodeHash) : IbltSketch := sketch.update id 1

def remove (sketch : IbltSketch) (id : NodeHash) : IbltSketch := sketch.update id (-1)

/-- The sketch of a list of elements. -/
def encode (cellCount : Nat) (kIblt : Option Bytes32) (ids : List NodeHash) : IbltSketch :=
  ids.foldl insert (newKeyed cellCount kIblt)

/-- The count, the id and the checksum of one element. -/
def passes (sketch : IbltSketch) (cell : IbltCell) : Bool :=
  (cell.count = 1 || cell.count = -1) && sketch.getChecksum ⟨cell.idSum⟩ = cell.hashSum

def isPure (sketch : IbltSketch) (index : Nat) : Bool :=
  (sketch.cells[index]?).any sketch.passes

/-- Take an element out of its cells and note the cells that become pure. -/
def clearElement (id : NodeHash) (peeled : IbltCell) :
    List Nat → IbltSketch × List Nat → IbltSketch × List Nat
  | [], state => state
  | index :: rest, (sketch, pureCells) =>
      let sketch := sketch.modifyCell (fun cell =>
        ⟨cell.count - peeled.count, cell.idSum ^^^ id.bytes, cell.hashSum ^^^ peeled.hashSum⟩) index
      clearElement id peeled rest
        (sketch, if sketch.isPure index then index :: pureCells else pureCells)

/-- The state of `decode`; the stack of cells has its top first. -/
structure Decoding where
  sketch : IbltSketch
  inSelf : List NodeHash
  inOther : List NodeHash
  pureCells : List Nat
  stats : DecodingStats
  deriving DecidableEq, Repr

namespace Decoding

/-- The bound on the number of differences for the size of the sketch. -/
def dMax (sketch : IbltSketch) : Nat := (Tier.fromCellCount sketch.cells.length).dMax

/-- Note the element of a pure cell, by the side it is on. -/
def find (decoding : Decoding) (cell : IbltCell) : Decoding :=
  let found := { decoding with
    stats := { decoding.stats with cellsPeeled := decoding.stats.cellsPeeled + 1 } }
  if cell.count = 1 then { found with inSelf := decoding.inSelf ++ [⟨cell.idSum⟩] }
  else { found with inOther := decoding.inOther ++ [⟨cell.idSum⟩] }

/-- Peel the element of a pure cell. -/
def peel (decoding : Decoding) (cell : IbltCell) : Except ReconciliationError Decoding :=
  let found := decoding.find cell
  if dMax decoding.sketch < found.inSelf.length + found.inOther.length then
    .error (.decodingFailed found.stats)
  else
    let (sketch, pureCells) := clearElement ⟨cell.idSum⟩ cell
      (decoding.sketch.getIndices ⟨cell.idSum⟩) (decoding.sketch, decoding.pureCells)
    .ok { found with
      sketch := sketch
      pureCells := pureCells }

/-- The peeling loop; the fuel bounds the number of rounds. -/
def peelAll : Nat → Decoding → Except ReconciliationError Decoding
  | 0, decoding => .ok decoding
  | fuel + 1, decoding =>
      match decoding.pureCells with
      | [] => .ok decoding
      | index :: rest =>
          let decoding := { decoding with
            pureCells := rest
            stats := { decoding.stats with iterations := decoding.stats.iterations + 1 } }
          if decoding.sketch.isPure index then
            match decoding.peel ((decoding.sketch.cells[index]?).getD 0) with
            | .error error => .error error
            | .ok decoding => peelAll fuel decoding
          else peelAll fuel decoding

/-- The decoding before any cell is peeled. -/
def start (sketch : IbltSketch) : Decoding where
  sketch := sketch
  inSelf := []
  inOther := []
  pureCells := ((List.range sketch.cells.length).filter sketch.isPure).reverse
  stats := ⟨0, sketch.cells.length⟩

/-- The sketch must be empty at the end. -/
def finish (decoding : Decoding) :
    Except ReconciliationError (List NodeHash × List NodeHash × DecodingStats) :=
  match decoding.sketch.cells.findIdx? fun cell => cell ≠ 0 with
  | some index => .error (.decodingFailed { decoding.stats with
      iterations := decoding.stats.iterations + index + 1 })
  | none => .ok (decoding.inSelf, decoding.inOther, { decoding.stats with
      iterations := decoding.stats.iterations + decoding.sketch.cells.length })

/-- Enough rounds for every decoding: each cell is on the stack at the start, and peeling puts
four back at most. -/
def rounds (sketch : IbltSketch) : Nat :=
  sketch.cells.length + indexCount * (dMax sketch + 1) + 1

end Decoding

/-- The elements that only this side has and those that only the other has. -/
def decode (sketch : IbltSketch) :
    Except ReconciliationError (List NodeHash × List NodeHash × DecodingStats) :=
  match Decoding.peelAll (Decoding.rounds sketch) (Decoding.start sketch) with
  | .error error => .error error
  | .ok decoding => decoding.finish

/-! ## Positions -/

omit [IbltHash] in
theorem pickIndices_valid {cellCount fuel : Nat} (hnodup : picked.Nodup)
    (hbound : ∀ index ∈ picked, index < cellCount) (hlength : picked.length ≤ indexCount) :
    (pickIndices words cellCount fuel position picked).Nodup ∧
      (∀ index ∈ pickIndices words cellCount fuel position picked, index < cellCount) ∧
      (pickIndices words cellCount fuel position picked).length ≤ indexCount := by
  induction fuel generalizing position picked with
  | zero => exact ⟨hnodup, hbound, hlength⟩
  | succ fuel ih =>
      unfold pickIndices
      split
      next hroom =>
        rw [Bool.and_eq_true, decide_eq_true_iff, decide_eq_true_iff] at hroom
        have hcells : 0 < cellCount := Nat.zero_lt_of_lt hroom.2
        simp only
        split
        · exact ih hnodup hbound hlength
        next hnew =>
          refine ih ?_ ?_ ?_
          · rw [List.nodup_append]
            refine ⟨hnodup, List.nodup_singleton _, fun index hmem last hlast => ?_⟩
            rintro rfl
            rw [List.mem_singleton] at hlast
            exact hnew (List.contains_iff_mem.mpr (hlast ▸ hmem))
          · intro index hmem
            rcases List.mem_append.mp hmem with hmem | hmem
            · exact hbound index hmem
            · rw [List.mem_singleton.mp hmem]
              exact Nat.mod_lt _ hcells
          · rw [List.length_append]
            exact hroom.1
      next => exact ⟨hnodup, hbound, hlength⟩

omit [IbltHash] in
theorem subset_pickIndices
    {cellCount fuel : Nat} : picked ⊆ pickIndices words cellCount fuel position picked := by
  induction fuel generalizing position picked with
  | zero => exact List.Subset.refl _
  | succ fuel ih =>
      unfold pickIndices
      split
      · simp only
        split
        · exact ih
        · exact List.Subset.trans (List.subset_append_left _ _) ih
      · exact List.Subset.refl _

theorem mem_getIndices {sketch : IbltSketch} {id : NodeHash} :
    index ∈ sketch.getIndices id ↔ index ∈ pickIndices (IbltHash.indexWord sketch.kIblt id)
      sketch.cells.length IbltHash.draws 0 [] :=
  (List.perm_insertionSort _ _).mem_iff

theorem nodup_getIndices (sketch : IbltSketch) (id : NodeHash) : (sketch.getIndices id).Nodup :=
  (List.perm_insertionSort _ _).nodup_iff.mpr
    (pickIndices_valid List.nodup_nil (fun _ hmem => absurd hmem List.not_mem_nil)
      (Nat.zero_le _)).1

theorem lt_of_mem_getIndices {sketch : IbltSketch} {id : NodeHash}
    (hmem : index ∈ sketch.getIndices id) : index < sketch.cells.length :=
  (pickIndices_valid List.nodup_nil (fun _ hmem => absurd hmem List.not_mem_nil)
    (Nat.zero_le _)).2.1 index (mem_getIndices.mp hmem)

theorem length_getIndices_le (sketch : IbltSketch) (id : NodeHash) :
    (sketch.getIndices id).length ≤ indexCount := by
  rw [getIndices, (List.perm_insertionSort _ _).length_eq]
  exact (pickIndices_valid List.nodup_nil (fun _ hmem => absurd hmem List.not_mem_nil)
    (Nat.zero_le _)).2.2

/-- An element is in some cell. -/
theorem exists_mem_getIndices (sketch : IbltSketch) (id : NodeHash)
    (hcells : 0 < sketch.cells.length) : ∃ index, index ∈ sketch.getIndices id := by
  obtain ⟨fuel, hfuel⟩ := Nat.exists_eq_add_of_lt (IbltHash.draws_pos)
  rw [Nat.zero_add] at hfuel
  refine ⟨(IbltHash.indexWord sketch.kIblt id 0).toNat % sketch.cells.length, ?_⟩
  rw [mem_getIndices, hfuel]
  unfold pickIndices
  rw [if_pos (by simp [indexCount, hcells])]
  exact subset_pickIndices (by simp)

/-! ## Sketches as sums -/

/-- The size of a sketch and its key decide where elements go. -/
def shape (sketch : IbltSketch) : Nat × Option Bytes32 := (sketch.cells.length, sketch.kIblt)

def cellAt (sketch : IbltSketch) (index : Nat) : IbltCell := (sketch.cells[index]?).getD 0

/-- What one element adds to the cells. -/
def code (sketch : IbltSketch) (id : NodeHash) (index : Nat) : IbltCell :=
  if index ∈ sketch.getIndices id then ⟨1, id.bytes, sketch.getChecksum id⟩ else 0

section Sums

variable {sketch other : IbltSketch} {id : NodeHash}

section

variable (hshape : sketch.shape = other.shape)
include hshape

theorem getIndices_congr :
    sketch.getIndices id = other.getIndices id := by
  obtain ⟨hlength, hkey⟩ := Prod.ext_iff.mp hshape
  simp only [shape] at hlength hkey
  rw [getIndices, getIndices, hlength, hkey]

theorem getChecksum_congr :
    sketch.getChecksum id = other.getChecksum id := by
  obtain ⟨-, hkey⟩ := Prod.ext_iff.mp hshape
  simp only [shape] at hkey
  rw [getChecksum, getChecksum, hkey]

theorem code_congr : sketch.code = other.code := by
  funext id index
  rw [code, code, getIndices_congr hshape, getChecksum_congr hshape]

omit [IbltHash] in
/-- A sketch is determined by its shape and what its cells hold. -/
theorem eq_of_cellAt (hcells : sketch.cellAt = other.cellAt) : sketch = other := by
  obtain ⟨cells, key⟩ := sketch
  obtain ⟨cells', key'⟩ := other
  obtain ⟨hlength, hkey⟩ := Prod.ext_iff.mp hshape
  have heq : cells = cells' := by
    refine List.ext_getElem hlength fun index hindex hindex' => ?_
    have hcell := congrFun hcells index
    simp only [cellAt, List.getElem?_eq_getElem hindex, List.getElem?_eq_getElem hindex',
      Option.getD_some] at hcell
    exact hcell
  rw [heq]
  exact congrArg _ hkey

end

omit [IbltHash] in
@[simp]
theorem shape_modifyCell (sketch : IbltSketch) (f : IbltCell → IbltCell) (index : Nat) :
    (sketch.modifyCell f index).shape = sketch.shape := by
  rw [shape, modifyCell, List.length_modify]
  rfl

variable (f : IbltCell → IbltCell)

omit [IbltHash] in
@[simp]
theorem shape_foldl_modifyCell (indices : List Nat) :
    (indices.foldl (modifyCell · f) sketch).shape = sketch.shape := by
  induction indices generalizing sketch with
  | nil => rfl
  | cons index rest ih =>
      rw [List.foldl_cons, ih]
      exact sketch.shape_modifyCell f index

omit [IbltHash] in
theorem cellAt_modifyCell (hmodified : modified < sketch.cells.length) (index : Nat) :
    (sketch.modifyCell f modified).cellAt index =
      if index = modified then f (sketch.cellAt index) else sketch.cellAt index := by
  unfold cellAt modifyCell
  simp only [List.getElem?_modify]
  split
  next heq =>
    subst heq
    rw [if_pos rfl, List.getElem?_eq_getElem hmodified]
    rfl
  next hne =>
    rw [if_neg (Ne.symm hne)]
    simp only [Option.map_eq_map, Option.map_id']

omit [IbltHash] in
/-- Modifying several cells, each once. -/
theorem cellAt_foldl_modifyCell (hnodup : indices.Nodup)
    (hbound : ∀ index ∈ indices, index < sketch.cells.length) (index : Nat) :
    (indices.foldl (modifyCell · f) sketch).cellAt index =
      if index ∈ indices then f (sketch.cellAt index) else sketch.cellAt index := by
  induction indices generalizing sketch with
  | nil => rfl
  | cons first rest ih =>
      obtain ⟨hfirst, hrest⟩ := List.nodup_cons.mp hnodup
      have hlength : (sketch.modifyCell f first).cells.length = sketch.cells.length :=
        congrArg Prod.fst (sketch.shape_modifyCell f first)
      have hmodify := cellAt_modifyCell f (hbound first List.mem_cons_self) index
      rw [List.foldl_cons, ih hrest fun index hmem => by
        rw [hlength]
        exact hbound index (List.mem_cons_of_mem _ hmem), hmodify]
      by_cases hindex : index = first
      · subst hindex
        simp [hfirst]
      · simp [hindex]

theorem cellAt_update (delta : BitVec 32) (index : Nat) :
    (sketch.update id delta).cellAt index =
      if index ∈ sketch.getIndices id then
        sketch.cellAt index + ⟨delta, id.bytes, sketch.getChecksum id⟩
      else sketch.cellAt index :=
  cellAt_foldl_modifyCell _ (sketch.nodup_getIndices id)
    (fun _ hmem => lt_of_mem_getIndices hmem) index

theorem shape_insert : (sketch.insert id).shape = sketch.shape :=
  shape_foldl_modifyCell _ _

theorem cellAt_insert : (sketch.insert id).cellAt = sketch.cellAt + sketch.code id := by
  funext index
  rw [insert, cellAt_update, Pi.add_apply, code]
  split
  · rfl
  · rw [add_zero]

theorem shape_foldl_insert (ids : List NodeHash) :
    (ids.foldl insert sketch).shape = sketch.shape := by
  induction ids generalizing sketch with
  | nil => rfl
  | cons id rest ih => exact ih.trans shape_insert

theorem cellAt_foldl_insert (ids : List NodeHash) :
    (ids.foldl insert sketch).cellAt = sketch.cellAt + (ids.map sketch.code).sum := by
  induction ids generalizing sketch with
  | nil => exact (add_zero _).symm
  | cons id rest ih =>
      rw [List.foldl_cons, ih, cellAt_insert, code_congr shape_insert, List.map_cons,
        List.sum_cons, add_assoc]

omit [IbltHash] in
theorem shape_newKeyed (cellCount : Nat) (kIblt : Option Bytes32) :
    (newKeyed cellCount kIblt).shape = (cellCount, kIblt) := by
  rw [shape, newKeyed, List.length_replicate]

omit [IbltHash] in
theorem cellAt_newKeyed (cellCount : Nat) (kIblt : Option Bytes32) :
    (newKeyed cellCount kIblt).cellAt = 0 := by
  funext index
  rw [cellAt, newKeyed, List.getElem?_replicate]
  split <;> rfl

theorem shape_encode (cellCount : Nat) (kIblt : Option Bytes32) (ids : List NodeHash) :
    (encode cellCount kIblt ids).shape = (cellCount, kIblt) :=
  (shape_foldl_insert ids).trans (shape_newKeyed cellCount kIblt)

/-- The sketch of a list holds the sum of what its elements add. -/
theorem cellAt_encode {cellCount : Nat} {kIblt : Option Bytes32}
    (hshape : sketch.shape = (cellCount, kIblt)) (ids : List NodeHash) :
    (encode cellCount kIblt ids).cellAt = (ids.map sketch.code).sum := by
  rw [encode, cellAt_foldl_insert, cellAt_newKeyed, zero_add,
    code_congr (hshape.trans (shape_newKeyed cellCount kIblt).symm)]

omit [IbltHash] in
theorem subtract_ok {difference : IbltSketch} (hok : sketch.subtract other = .ok difference) :
    sketch.cells.length = other.cells.length ∧ difference.shape = sketch.shape ∧
      difference.cellAt = sketch.cellAt - other.cellAt := by
  unfold subtract at hok
  split at hok
  · cases hok
  next hlength =>
    rw [not_not] at hlength
    cases hok
    refine ⟨hlength, ?_, ?_⟩
    · rw [shape, List.length_zipWith, hlength, Nat.min_self, ← hlength]
      rfl
    · funext index
      simp only [cellAt, Pi.sub_apply, List.getElem?_zipWith]
      by_cases hindex : index < sketch.cells.length
      · rw [List.getElem?_eq_getElem hindex, List.getElem?_eq_getElem (hlength ▸ hindex)]
        rfl
      · rw [List.getElem?_eq_none (Nat.le_of_not_lt hindex),
          List.getElem?_eq_none (hlength ▸ Nat.le_of_not_lt hindex)]
        rfl

end Sums

end IbltSketch

namespace Reference

/-- Words that count up from the element. -/
instance referenceHash : IbltHash where
  draws := 8
  draws_pos := by decide
  indexWord _ id position := BitVec.ofNat 32 (id.bytes.toNat * 5 + position * 3)
  checksum _ id := BitVec.ofNat 64 (id.bytes.toNat * 1000003 + 7)

end Reference

end MerkleTox.Reconcile
