import Mathlib.Data.Finset.Max
import Mathlib.Order.Interval.Finset.Nat

/-! # Queries about a set of indices

The least and the greatest element of a finite set and, over them, what a caller asks of a set of
indices: the next one in a range, the next gap, the run that begins there, how many there are.
-/

namespace MerkleTox.Library

universe uElem

section Extrema

variable {Elem : Type uElem} [LinearOrder Elem]

def least (set : Finset Elem) : Option Elem := set.min

def greatest (set : Finset Elem) : Option Elem := set.max

variable {set : Finset Elem}
variable {elem : Elem}

theorem least_eq_some (hmem : elem ∈ set) (hle : ∀ other ∈ set, elem ≤ other) :
    least set = some elem := by
  have hmin : set.min = (elem : WithTop Elem) := le_antisymm (Finset.min_le hmem)
    (Finset.le_min fun other h => WithTop.coe_le_coe.mpr (hle other h))
  exact hmin

theorem least_eq_none (h : ∀ elem, elem ∉ set) : least set = none :=
  Finset.min_eq_top.mpr (Finset.eq_empty_of_forall_notMem h)

theorem greatest_eq_some (hmem : elem ∈ set) (hle : ∀ other ∈ set, other ≤ elem) :
    greatest set = some elem := by
  have hmax : set.max = (elem : WithBot Elem) := le_antisymm
    (Finset.max_le fun other h => WithBot.coe_le_coe.mpr (hle other h)) (Finset.le_max hmem)
  exact hmax

theorem greatest_eq_none (h : ∀ elem, elem ∉ set) : greatest set = none :=
  Finset.max_eq_bot.mpr (Finset.eq_empty_of_forall_notMem h)

theorem mem_of_least (h : least set = some elem) : elem ∈ set :=
  Finset.mem_of_min h

theorem mem_of_greatest (h : greatest set = some elem) : elem ∈ set :=
  Finset.mem_of_max h

theorem least_le {other : Elem} (h : least set = some elem) (hmem : other ∈ set) :
    elem ≤ other :=
  Finset.min_le_of_eq hmem h

theorem not_mem_of_least (h : least set = none) (elem : Elem) : elem ∉ set :=
  Finset.min_eq_top.mp h ▸ Finset.notMem_empty elem

end Extrema

/-! ## Indices in a range -/

/-- The first index of the set in `[start, limit)`. -/
def nextIn (set : Finset Nat) (start limit : Nat) : Option Nat :=
  least (Finset.Ico start limit ∩ set)

/-- The first index in `[start, limit)` that is not in the set. -/
def nextGap (set : Finset Nat) (start limit : Nat) : Option Nat :=
  least (Finset.Ico start limit \ set)

/-- The last index of the set below `limit`. -/
def lastIn (set : Finset Nat) (limit : Nat) : Option Nat := greatest (Finset.range limit ∩ set)

/-- The first run of consecutive indices of the set in `[start, limit)`, its end excluded. -/
def nextRun (set : Finset Nat) (start limit : Nat) : Option (Nat × Nat) :=
  (nextIn set start limit).map fun first => (first, (nextGap set first limit).getD limit)

variable {set : Finset Nat} {start limit i : Nat}

theorem nextIn_eq_some (hstart : start ≤ i) (hlimit : i < limit) (hmem : i ∈ set)
    (hbefore : ∀ j, start ≤ j → j < i → j ∉ set) : nextIn set start limit = some i := by
  refine least_eq_some (Finset.mem_inter.mpr ⟨Finset.mem_Ico.mpr ⟨hstart, hlimit⟩, hmem⟩) ?_
  intro j hj
  obtain ⟨hrange, hset⟩ := Finset.mem_inter.mp hj
  exact Nat.not_lt.mp fun hlt => hbefore j (Finset.mem_Ico.mp hrange).1 hlt hset

theorem nextIn_eq_none {start limit : Nat} (h : ∀ j, start ≤ j → j < limit → j ∉ set) :
    nextIn set start limit = none := by
  refine least_eq_none fun j hj => ?_
  obtain ⟨hrange, hset⟩ := Finset.mem_inter.mp hj
  exact h j (Finset.mem_Ico.mp hrange).1 (Finset.mem_Ico.mp hrange).2 hset

/-- A search may begin behind what the set leaves out. -/
theorem nextIn_skip {start middle : Nat} (limit : Nat) (hle : start ≤ middle)
    (h : ∀ j, start ≤ j → j < middle → j ∉ set) :
    nextIn set start limit = nextIn set middle limit := by
  unfold nextIn
  congr 1
  ext j
  simp only [Finset.mem_inter, Finset.mem_Ico]
  constructor
  · rintro ⟨⟨hstart, hlimit⟩, hset⟩
    exact ⟨⟨Nat.not_lt.mp fun hlt => h j hstart hlt hset, hlimit⟩, hset⟩
  · rintro ⟨⟨hstart, hlimit⟩, hset⟩
    exact ⟨⟨Nat.le_trans hle hstart, hlimit⟩, hset⟩

theorem nextGap_eq_some (hstart : start ≤ i) (hlimit : i < limit) (hgap : i ∉ set)
    (hbefore : ∀ j, start ≤ j → j < i → j ∈ set) : nextGap set start limit = some i := by
  refine least_eq_some (Finset.mem_sdiff.mpr ⟨Finset.mem_Ico.mpr ⟨hstart, hlimit⟩, hgap⟩) ?_
  intro j hj
  obtain ⟨hrange, hnot⟩ := Finset.mem_sdiff.mp hj
  exact Nat.not_lt.mp fun hlt => hnot (hbefore j (Finset.mem_Ico.mp hrange).1 hlt)

theorem nextGap_eq_none {start limit : Nat} (h : ∀ j, start ≤ j → j < limit → j ∈ set) :
    nextGap set start limit = none := by
  refine least_eq_none fun j hj => ?_
  obtain ⟨hrange, hnot⟩ := Finset.mem_sdiff.mp hj
  exact hnot (h j (Finset.mem_Ico.mp hrange).1 (Finset.mem_Ico.mp hrange).2)

theorem lastIn_eq_some {limit i : Nat} (hlimit : i < limit) (hmem : i ∈ set)
    (hafter : ∀ j, i < j → j < limit → j ∉ set) : lastIn set limit = some i := by
  refine greatest_eq_some (Finset.mem_inter.mpr ⟨Finset.mem_range.mpr hlimit, hmem⟩) ?_
  intro j hj
  obtain ⟨hrange, hset⟩ := Finset.mem_inter.mp hj
  exact Nat.not_lt.mp fun hlt => hafter j hlt (Finset.mem_range.mp hrange) hset

/-- A search may begin in front of what the set leaves out. -/
theorem lastIn_skip {middle limit : Nat} (hle : middle ≤ limit)
    (h : ∀ j, middle ≤ j → j < limit → j ∉ set) : lastIn set limit = lastIn set middle := by
  unfold lastIn
  congr 1
  ext j
  simp only [Finset.mem_inter, Finset.mem_range]
  constructor
  · rintro ⟨hlimit, hset⟩
    exact ⟨Nat.not_le.mp fun hge => h j hge hlimit hset, hset⟩
  · rintro ⟨hmiddle, hset⟩
    exact ⟨Nat.lt_of_lt_of_le hmiddle hle, hset⟩

theorem lastIn_lt {limit i : Nat} (h : lastIn set limit = some i) : i < limit :=
  Finset.mem_range.mp (Finset.mem_inter.mp (mem_of_greatest h)).1

theorem nextIn_spec (h : nextIn set start limit = some i) : start ≤ i ∧ i < limit ∧ i ∈ set := by
  obtain ⟨hrange, hset⟩ := Finset.mem_inter.mp (mem_of_least h)
  exact ⟨(Finset.mem_Ico.mp hrange).1, (Finset.mem_Ico.mp hrange).2, hset⟩

theorem nextIn_le {start limit i j : Nat} (h : nextIn set start limit = some i) (hstart : start ≤ j)
    (hlimit : j < limit) (hmem : j ∈ set) : i ≤ j :=
  least_le h (Finset.mem_inter.mpr ⟨Finset.mem_Ico.mpr ⟨hstart, hlimit⟩, hmem⟩)

theorem nextGap_spec (h : nextGap set start limit = some i) : start ≤ i ∧ i < limit ∧ i ∉ set := by
  obtain ⟨hrange, hnot⟩ := Finset.mem_sdiff.mp (mem_of_least h)
  exact ⟨(Finset.mem_Ico.mp hrange).1, (Finset.mem_Ico.mp hrange).2, hnot⟩

theorem nextGap_le {start limit i j : Nat} (h : nextGap set start limit = some i)
    (hstart : start ≤ j) (hlimit : j < limit) (hgap : j ∉ set) : i ≤ j :=
  least_le h (Finset.mem_sdiff.mpr ⟨Finset.mem_Ico.mpr ⟨hstart, hlimit⟩, hgap⟩)

theorem mem_of_nextGap {start limit j : Nat} (h : nextGap set start limit = none)
    (hstart : start ≤ j) (hlimit : j < limit) : j ∈ set := by
  by_contra hgap
  exact not_mem_of_least h j
    (Finset.mem_sdiff.mpr ⟨Finset.mem_Ico.mpr ⟨hstart, hlimit⟩, hgap⟩)

def countIn (set : Finset Nat) (start stop : Nat) : Nat := (Finset.Ico start stop ∩ set).card

theorem countIn_append (set : Finset Nat) {start middle stop : Nat} (hstart : start ≤ middle)
    (hstop : middle ≤ stop) :
    countIn set start stop = countIn set start middle + countIn set middle stop := by
  unfold countIn
  rw [← Finset.card_union_of_disjoint, ← Finset.union_inter_distrib_right,
    Finset.Ico_union_Ico_eq_Ico hstart hstop]
  exact Finset.disjoint_of_subset_left Finset.inter_subset_left
    (Finset.disjoint_of_subset_right Finset.inter_subset_left
      (Finset.Ico_disjoint_Ico_consecutive start middle stop))

theorem countIn_eq_zero {start stop : Nat} (h : stop ≤ start) : countIn set start stop = 0 := by
  rw [countIn, Finset.Ico_eq_empty (by omega), Finset.empty_inter, Finset.card_empty]

end MerkleTox.Library
