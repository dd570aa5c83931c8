import Mathlib.Data.List.Count
import Mathlib.Order.Lattice
import Mathlib.Tactic.Common

/-! # Searching a sorted list

A list is sorted by a key. What a monotone function of the elements says splits it into
consecutive ranges, and a key is found by halving.
-/

namespace MerkleTox.Library

universe uElement uKey uMark

variable {Element : Type uElement} {Key : Type uKey} {Mark : Type uMark}

/-! ## Ranges -/

section Ranges

variable {list : List Element}

/-- Where a test fails it fails from there on: the elements that pass come first. -/
theorem split_countP {test : Element → Bool}
    (hdownward : list.Pairwise fun first second => test second = true → test first = true) :
    list.take (list.countP test) = list.filter test ∧
      list.drop (list.countP test) = list.filter fun element => !test element := by
  induction list with
  | nil => exact ⟨rfl, rfl⟩
  | cons element rest ih =>
      obtain ⟨hbefore, hrest⟩ := List.pairwise_cons.mp hdownward
      cases hfirst : test element with
      | true =>
          obtain ⟨htake, hdrop⟩ := ih hrest
          rw [List.countP_cons_of_pos hfirst, List.filter_cons_of_pos hfirst,
            List.filter_cons_of_neg (by simp [hfirst]), List.take_succ_cons, List.drop_succ_cons,
            htake, hdrop]
          exact ⟨rfl, rfl⟩
      | false =>
          have hnone : ∀ other ∈ rest, ¬ test other = true := fun other hmem hother =>
            Bool.false_ne_true (hfirst.symm.trans (hbefore other hmem hother))
          have hall : ∀ other ∈ rest, (!test other) = true := fun other hmem => by
            simpa using hnone other hmem
          have hneg : ¬ test element = true := by simp [hfirst]
          rw [List.countP_cons_of_neg hneg, List.countP_eq_zero.mpr hnone,
            List.filter_cons_of_neg hneg, List.filter_cons_of_pos (by simp [hfirst]),
            List.filter_eq_nil_iff.mpr hnone, List.filter_eq_self.mpr hall]
          exact ⟨rfl, rfl⟩

variable [LinearOrder Mark] {mark : Element → Mark}

/-- The elements of one mark are a range. -/
theorem range_eq_filter (hsorted : list.Pairwise fun first second => mark first ≤ mark second)
    (wanted : Mark) :
    (list.take (list.countP fun element => decide (mark element ≤ wanted))).drop
        (list.countP fun element => decide (mark element < wanted)) =
      list.filter fun element => decide (mark element = wanted) := by
  have hupTo := (@split_countP _ list (fun element => decide (mark element ≤ wanted))
    (hsorted.imp fun hle hother => decide_eq_true (hle.trans (of_decide_eq_true hother)))).1
  have hbelow := (@split_countP _ (list.filter fun element => decide (mark element ≤ wanted))
    (fun element => decide (mark element < wanted)) ((hsorted.filter _).imp fun hle hother =>
      decide_eq_true (hle.trans_lt (of_decide_eq_true hother)))).2
  have hcount : (list.countP fun element =>
      decide (mark element < wanted) && decide (mark element ≤ wanted)) =
        list.countP fun element => decide (mark element < wanted) := by
    refine List.countP_congr fun element _ => ?_
    simp only [Bool.and_eq_true, decide_eq_true_eq]
    exact ⟨And.left, fun hlt => ⟨hlt, hlt.le⟩⟩
  rw [List.countP_filter, hcount] at hbelow
  rw [hupTo, hbelow, List.filter_filter]
  refine List.filter_congr fun element _ => ?_
  rw [Bool.eq_iff_iff]
  simp only [Bool.and_eq_true, Bool.not_eq_true', decide_eq_false_iff_not, decide_eq_true_eq,
    not_lt]
  exact ⟨fun ⟨hge, hle⟩ => hle.antisymm hge, fun heq => ⟨heq.ge, heq.le⟩⟩

end Ranges

/-! ## Binary search -/

section Search

variable [LinearOrder Key] (key : Element → Key) (target : Key) (list : List Element)

/-- The loop of `binary_search_by`: `size` positions from `base` on are left, and the upper half
goes if it starts above the target. -/
def narrow : Nat → Nat → Nat → Nat
  | 0, base, _ => base
  | rounds + 1, base, size =>
      if size ≤ 1 then base
      else
        let half := size / 2
        let mid := base + half
        let above := (list[mid]?).any fun element => decide (target < key element)
        narrow rounds (if above then base else mid) (size - half)

/-- `binary_search_by_key`: a position with the target as its key. -/
def binarySearch : Option Nat :=
  if list.isEmpty then none
  else
    let base := narrow key target list list.length 0 list.length
    if (list[base]?).any fun element => decide (key element = target) then some base else none

variable {key target list}

theorem binarySearch_some {position : Nat} (h : binarySearch key target list = some position) :
    ∃ element, list[position]? = some element ∧ key element = target := by
  unfold binarySearch at h
  dsimp only at h
  split at h
  next => cases h
  next =>
    split at h
    next hfound =>
      cases h
      obtain ⟨element, hget, hkey⟩ := Option.any_eq_true _ _ |>.mp hfound
      exact ⟨element, hget, of_decide_eq_true hkey⟩
    next => cases h

/-- The target stays among the positions that are left. -/
theorem narrow_spec (hsorted : list.Pairwise fun first second => key first ≤ key second)
    {rounds base size : Nat} (hrounds : size ≤ rounds + 1) (hsize : 0 < size)
    (hbound : base + size ≤ list.length)
    (h : ∃ i element, base ≤ i ∧ i < base + size ∧ list[i]? = some element ∧ key element = target) :
    ∃ element, list[narrow key target list rounds base size]? = some element ∧
      key element = target := by
  induction rounds generalizing base size with
  | zero =>
      obtain ⟨i, element, hlow, hhigh, hget, hkey⟩ := h
      have heq : i = base := by omega
      exact ⟨element, heq ▸ hget, hkey⟩
  | succ rounds ih =>
      obtain ⟨i, element, hlow, hhigh, hget, hkey⟩ := h
      unfold narrow
      split
      next hone =>
        have heq : i = base := by omega
        exact ⟨element, heq ▸ hget, hkey⟩
      next hmany =>
        dsimp only
        have hmid : base + size / 2 < list.length := by omega
        have hi : i < list.length := (List.getElem?_eq_some_iff.mp hget).1
        have hsortedAt := List.pairwise_iff_getElem.mp hsorted
        rw [List.getElem?_eq_getElem hi, Option.some.injEq] at hget
        split
        next habove =>
          rw [List.getElem?_eq_getElem hmid, Option.any_some, decide_eq_true_eq] at habove
          refine ih (by omega) (by omega) (by omega) ⟨i, element, hlow, ?_, ?_, hkey⟩
          · by_contra hnot
            have hle : key list[base + size / 2] ≤ key list[i] := by
              rcases Nat.eq_or_lt_of_le (show base + size / 2 ≤ i by omega) with heq | hlt
              · simp only [heq, le_refl]
              · exact hsortedAt _ _ hmid hi hlt
            rw [hget, hkey] at hle
            exact absurd habove hle.not_gt
          · rw [List.getElem?_eq_getElem hi, hget]
        next hnotAbove =>
          rw [List.getElem?_eq_getElem hmid, Option.any_some, decide_eq_true_eq,
            not_lt] at hnotAbove
          by_cases hupper : base + size / 2 ≤ i
          · refine ih (by omega) (by omega) (by omega) ⟨i, element, hupper, by omega, ?_, hkey⟩
            rw [List.getElem?_eq_getElem hi, hget]
          · -- the target lies below the middle, and so in the middle, too
            have hle := hsortedAt i (base + size / 2) hi hmid (by omega)
            rw [hget, hkey] at hle
            exact ih (by omega) (by omega) (by omega) ⟨base + size / 2, list[base + size / 2],
              Nat.le_refl _, by omega, List.getElem?_eq_getElem hmid, hnotAbove.antisymm hle⟩

theorem binarySearch_none (hsorted : list.Pairwise fun first second => key first ≤ key second)
    (h : binarySearch key target list = none) : ∀ element ∈ list, key element ≠ target := by
  intro element hmem hkey
  obtain ⟨i, hget⟩ := List.mem_iff_getElem?.mp hmem
  have hi : i < list.length := (List.getElem?_eq_some_iff.mp hget).1
  obtain ⟨found, hfound, htarget⟩ := narrow_spec hsorted (Nat.le_succ list.length) (by omega)
    (by omega : 0 + list.length ≤ list.length)
    ⟨i, element, Nat.zero_le i, by omega, hget, hkey⟩
  unfold binarySearch at h
  have hnonempty : list.isEmpty = false := by
    rw [List.isEmpty_eq_false_iff]
    exact List.ne_nil_of_mem hmem
  simp [hnonempty, hfound, htarget] at h

end Search

end MerkleTox.Library
