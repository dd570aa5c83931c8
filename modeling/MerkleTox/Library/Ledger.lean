import Mathlib.Algebra.GroupWithZero.Nat
import Mathlib.Data.List.Nodup
import Mathlib.Data.List.Perm.Basic
import Mathlib.Data.List.Sort

/-! # Ledgers with a quota

A ledger lists entries and records the sum of their sizes beside them. An entry is removed by
moving the last one into its place. While the recorded total exceeds a quota, entries go in a
given order, until only locked ones are left.
-/

namespace MerkleTox.Library

universe uKey uEntry

structure Ledger (Entry : Type uEntry) where
  total : Nat
  entries : List Entry

namespace Ledger

variable {Key : Type uKey} {Entry : Type uEntry}

def empty : Ledger Entry := ⟨0, []⟩

/-- Remove an element and move the last one into its place. -/
def swapRemove (entries : List Entry) (index : Nat) : List Entry :=
  match entries.getLast? with
  | none => []
  | some last => (entries.set index last).dropLast

section Definitions

variable (size : Entry → Nat)

def push (ledger : Ledger Entry) (entry : Entry) : Ledger Entry :=
  ⟨ledger.total + size entry, ledger.entries ++ [entry]⟩

/-- Remove the first entry that passes a test. -/
def remove (ledger : Ledger Entry) (test : Entry → Bool) : Ledger Entry :=
  match ledger.entries.findIdx? test with
  | none => ledger
  | some index =>
      ⟨ledger.total - (ledger.entries[index]?.map size).getD 0, swapRemove ledger.entries index⟩

/-- Drop entries in the order `le` while the quota is exceeded and one of them is not locked.
The fuel bounds the number of rounds. -/
def evict (quota : Nat) (locked : Entry → Bool) (le : Entry → Entry → Bool) :
    Nat → Ledger Entry → List Entry × Ledger Entry
  | 0, ledger => ([], ledger)
  | fuel + 1, ledger =>
      if quota < ledger.total && ledger.entries.any fun entry => !locked entry then
        match ledger.entries.mergeSort le with
        | [] => ([], ledger)
        | first :: rest =>
            let (evicted, ledger) := evict quota locked le fuel ⟨ledger.total - size first, rest⟩
            (first :: evicted, ledger)
      else ([], ledger)

/-- The recorded total is the sum of the sizes. -/
def Balanced (ledger : Ledger Entry) : Prop := ledger.total = (ledger.entries.map size).sum

end Definitions

variable {size : Entry → Nat} {ledger : Ledger Entry}

theorem Balanced.empty : Balanced size (.empty : Ledger Entry) := rfl

theorem Balanced.push (hbalanced : ledger.Balanced size) (entry : Entry) :
    (ledger.push size entry).Balanced size := by
  rw [Balanced, Ledger.push, List.map_append, List.sum_append, hbalanced]
  rfl

/-! ## Removal -/

theorem swapRemove_perm (entries : List Entry) {index : Nat} (hindex : index < entries.length) :
    (swapRemove entries index).Perm (entries.eraseIdx index) := by
  have hne : entries ≠ [] := List.ne_nil_of_length_pos (Nat.zero_lt_of_lt hindex)
  have hset : entries.set index (entries.getLast hne) ≠ [] :=
    List.ne_nil_of_length_pos (by rw [List.length_set]; exact Nat.zero_lt_of_lt hindex)
  have hlast : (entries.set index (entries.getLast hne)).getLast hset = entries.getLast hne := by
    simp only [List.getLast_eq_getElem, List.length_set, List.getElem_set]
    split <;> rfl
  have hsplit := List.dropLast_append_getLast hset
  have hperm := List.set_perm_cons_eraseIdx hindex (entries.getLast hne)
  rw [← hsplit, hlast] at hperm
  unfold swapRemove
  rw [List.getLast?_eq_some_getLast hne]
  exact (List.perm_cons _).mp ((List.perm_append_singleton _ _).symm.trans hperm)

variable (size) in
/-- What is removed is an entry that passes the test. -/
theorem remove_cases (ledger : Ledger Entry) (test : Entry → Bool) :
    (ledger.remove size test = ledger ∧ ∀ entry ∈ ledger.entries, test entry = false) ∨
      ∃ entry, test entry = true ∧
        ledger.entries.Perm (entry :: (ledger.remove size test).entries) ∧
        (ledger.remove size test).total = ledger.total - size entry := by
  unfold remove
  split
  next hnone => exact .inl ⟨rfl, fun entry hmem => List.findIdx?_eq_none_iff.mp hnone entry hmem⟩
  next index hsome =>
    obtain ⟨hindex, htest, -⟩ := List.findIdx?_eq_some_iff_getElem.mp hsome
    refine .inr ⟨ledger.entries[index], htest, ?_, ?_⟩
    · exact (List.getElem_cons_eraseIdx_perm hindex).symm.trans
        ((swapRemove_perm ledger.entries hindex).symm.cons _)
    · rw [List.getElem?_eq_getElem hindex]
      rfl

theorem Balanced.remove (hbalanced : ledger.Balanced size) (test : Entry → Bool) :
    (ledger.remove size test).Balanced size := by
  rcases ledger.remove_cases size test with ⟨heq, -⟩ | ⟨entry, -, hperm, htotal⟩
  · rw [heq]
    exact hbalanced
  · have hsum := (hperm.map size).sum_nat
    rw [List.map_cons, List.sum_cons] at hsum
    rw [Balanced, htotal, hbalanced, hsum]
    exact Nat.add_sub_cancel_left ..

theorem remove_total_le (ledger : Ledger Entry) (test : Entry → Bool) :
    (ledger.remove size test).total ≤ ledger.total := by
  rcases ledger.remove_cases size test with ⟨heq, -⟩ | ⟨entry, -, -, htotal⟩
  · rw [heq]
  · rw [htotal]
    exact Nat.sub_le _ _

section Keyed

variable {key : Entry → Key}

/-- Removal by a key leaves the entries with other keys. -/
theorem mem_remove [DecidableEq Key] (hnodup : (ledger.entries.map key).Nodup) {removed : Key}
    {entry : Entry} :
    entry ∈ (ledger.remove size fun entry => key entry = removed).entries ↔
      entry ∈ ledger.entries ∧ key entry ≠ removed := by
  rcases ledger.remove_cases size fun entry => key entry = removed with
    ⟨heq, hnone⟩ | ⟨found, hfound, hperm, -⟩
  · rw [heq]
    exact ⟨fun hmem => ⟨hmem, of_decide_eq_false (hnone entry hmem)⟩, And.left⟩
  · have hfound := of_decide_eq_true hfound
    have hkeys := (hperm.map key).nodup_iff.mp hnodup
    rw [List.map_cons, List.nodup_cons] at hkeys
    rw [hperm.mem_iff, List.mem_cons]
    constructor
    · intro hmem
      exact ⟨.inr hmem, fun heq => hkeys.1 (List.mem_map.mpr ⟨entry, hmem, heq.trans hfound.symm⟩)⟩
    · rintro ⟨rfl | hmem, hne⟩
      · exact absurd hfound hne
      · exact hmem

theorem nodup_remove (hnodup : (ledger.entries.map key).Nodup) (test : Entry → Bool) :
    ((ledger.remove size test).entries.map key).Nodup := by
  rcases ledger.remove_cases size test with ⟨heq, -⟩ | ⟨found, -, hperm, -⟩
  · rw [heq]
    exact hnodup
  · have hkeys := (hperm.map key).nodup_iff.mp hnodup
    rw [List.map_cons, List.nodup_cons] at hkeys
    exact hkeys.2

end Keyed

/-! ## Eviction -/

variable {quota : Nat} {locked : Entry → Bool} {le : Entry → Entry → Bool}

theorem evict_perm (fuel : Nat) (ledger : Ledger Entry) :
    ((evict size quota locked le fuel ledger).1 ++
      (evict size quota locked le fuel ledger).2.entries).Perm ledger.entries := by
  induction fuel generalizing ledger with
  | zero => exact .refl _
  | succ fuel ih =>
      unfold evict
      split
      · split
        · exact .refl _
        next first rest hsorted =>
          have hperm := List.mergeSort_perm ledger.entries le
          rw [hsorted] at hperm
          exact ((ih ⟨_, rest⟩).cons first).trans hperm
      · exact .refl _

theorem Balanced.evict (hbalanced : ledger.Balanced size) (fuel : Nat) :
    (evict size quota locked le fuel ledger).2.Balanced size := by
  induction fuel generalizing ledger with
  | zero => exact hbalanced
  | succ fuel ih =>
      unfold Ledger.evict
      split
      · split
        · exact hbalanced
        next first rest hsorted =>
          refine ih ?_
          have hperm := List.mergeSort_perm ledger.entries le
          rw [hsorted] at hperm
          have hsum := (hperm.map size).sum_nat
          rw [List.map_cons, List.sum_cons] at hsum
          change ledger.total - size first = _
          rw [hbalanced, ← hsum]
          exact Nat.add_sub_cancel_left ..
      · exact hbalanced

/-- With as many rounds as there are entries the loop ends because its condition fails. -/
theorem evict_done {fuel : Nat} (hfuel : ledger.entries.length ≤ fuel) :
    (evict size quota locked le fuel ledger).2.total ≤ quota ∨
      ∀ entry ∈ (evict size quota locked le fuel ledger).2.entries, locked entry = true := by
  induction fuel generalizing ledger with
  | zero =>
      have hnil := List.eq_nil_of_length_eq_zero (Nat.le_zero.mp hfuel)
      refine .inr fun entry hmem => ?_
      unfold evict at hmem
      rw [hnil] at hmem
      exact absurd hmem List.not_mem_nil
  | succ fuel ih =>
      have hlength := (List.mergeSort_perm ledger.entries le).length_eq
      unfold evict
      split
      next hguard =>
        split
        next hsorted =>
          rw [hsorted] at hlength
          refine .inr fun entry hmem => ?_
          rw [List.eq_nil_of_length_eq_zero hlength.symm] at hmem
          exact absurd hmem List.not_mem_nil
        next first rest hsorted =>
          rw [hsorted, List.length_cons] at hlength
          exact ih (by change rest.length ≤ fuel; omega)
      next hguard =>
        rw [Bool.and_eq_true, decide_eq_true_iff, not_and_or] at hguard
        rcases hguard with hwithin | hlocked
        · exact .inl (Nat.le_of_not_lt hwithin)
        · refine .inr fun entry hmem => ?_
          rw [List.any_eq_true, not_exists] at hlocked
          have hentry := hlocked entry
          simpa [hmem] using hentry

/-- Locked entries stay, if the order puts them behind the others. -/
theorem evict_unlocked (htrans : ∀ first second third, le first second = true →
      le second third = true → le first third = true)
    (htotal : ∀ first second, (le first second || le second first) = true)
    (hlast : ∀ first second, locked first = true → locked second = false →
      le first second = false) (fuel : Nat) (ledger : Ledger Entry) :
    ∀ entry ∈ (evict size quota locked le fuel ledger).1, locked entry = false := by
  induction fuel generalizing ledger with
  | zero => exact fun _ hmem => absurd hmem List.not_mem_nil
  | succ fuel ih =>
      unfold evict
      split
      next hguard =>
        split
        · exact fun _ hmem => absurd hmem List.not_mem_nil
        next first rest hsorted =>
          intro entry hmem
          rcases List.mem_cons.mp hmem with rfl | hmem
          · obtain ⟨other, hother, hunlocked⟩ :=
              List.any_eq_true.mp (Bool.and_eq_true_iff.mp hguard).2
            have hpairwise := List.pairwise_mergeSort htrans htotal ledger.entries
            rw [hsorted, List.pairwise_cons] at hpairwise
            have hmember := (List.mergeSort_perm ledger.entries le).mem_iff.mpr hother
            rw [hsorted, List.mem_cons] at hmember
            rw [Bool.not_eq_true'] at hunlocked
            rcases hmember with rfl | hmember
            · exact hunlocked
            · by_contra hlocked
              have hbehind := hlast entry other ((Bool.not_eq_false _).mp hlocked) hunlocked
              exact nomatch hbehind.symm.trans (hpairwise.1 other hmember)
          · exact ih _ entry hmem
      next => exact fun _ hmem => absurd hmem List.not_mem_nil

end Ledger

end MerkleTox.Library
