import Mathlib.Data.List.Basic
import Mathlib.Data.Nat.Find
import Mathlib.Tactic.Common

/-! # Two windows on one store

A list lies in the cells of a store from `source` on, and another one is written cell by cell
from `target` on. Where the two overlap, a reader of the first sees some of the second.
-/

namespace MerkleTox.Library

universe uCell

variable {Cell : Type uCell} {source target : Nat} {old new : List Cell} {i j k : Nat}

/-- What a reader of the old list sees after the other list was written. -/
def overlaid (source target : Nat) (old written : List Cell) : List Cell :=
  old.mapIdx fun i cell =>
    if target ≤ source + i then (written[source + i - target]?).getD cell else cell

/-- Where the lists overlap they agree. -/
def Spared (source target : Nat) (old new : List Cell) : Prop :=
  ∀ i k, i < old.length → k < new.length → source + i = target + k → old[i]? = new[k]?

/-- The lists differ in one cell at most, and the new one repeats itself where it overlaps with
itself. -/
structure Alike (source target : Nat) (old new : List Cell) : Prop where
  length : old.length = new.length
  repeats : ∀ i k, i < new.length → k < new.length → source + i = target + k → new[i]? = new[k]?
  once : ∀ i j : Nat, old[i]? ≠ new[i]? → old[j]? ≠ new[j]? → i = j

theorem length_overlaid (source target : Nat) (old written : List Cell) :
    (overlaid source target old written).length = old.length :=
  List.length_mapIdx

/-- A cell that was written. -/
theorem overlaid_written {count : Nat} (hi : i < old.length) (hk : k < new.length)
    (hcount : k < count) (h : source + i = target + k) :
    (overlaid source target old (new.take count))[i]? = new[k]? := by
  have hsub : source + i - target = k := by omega
  rw [overlaid, List.getElem?_mapIdx, List.getElem?_eq_getElem hi, Option.map_some,
    if_pos (by omega), hsub, List.getElem?_take_of_lt hcount, List.getElem?_eq_getElem hk,
    Option.getD_some]

/-- A cell that was not. -/
theorem overlaid_kept {count : Nat}
    (h : ∀ k < new.length, source + i = target + k → count ≤ k) :
    (overlaid source target old (new.take count))[i]? = old[i]? := by
  rw [overlaid, List.getElem?_mapIdx]
  cases old[i]? with
  | none => rfl
  | some cell =>
      rw [Option.map_some]
      split
      next hle =>
        have hnone : (new.take count)[source + i - target]? = none := by
          rw [List.getElem?_eq_none_iff, List.length_take]
          by_cases hlt : source + i - target < new.length
          · have := h _ hlt (by omega)
            omega
          · omega
        rw [hnone, Option.getD_none]
      next => rfl

/-- A cell shows what was written there last. -/
theorem overlaid_cases (source target : Nat) (old new : List Cell) (i count : Nat) :
    (∃ k, k < count ∧ k < new.length ∧ i < old.length ∧ source + i = target + k ∧
      (overlaid source target old (new.take count))[i]? = new[k]?) ∨
    ((overlaid source target old (new.take count))[i]? = old[i]? ∧
      ∀ k < new.length, source + i = target + k → i < old.length → count ≤ k) := by
  by_cases hwritten : ∃ k, k < count ∧ k < new.length ∧ i < old.length ∧ source + i = target + k
  · obtain ⟨k, hcount, hk, hi, heq⟩ := hwritten
    exact .inl ⟨k, hcount, hk, hi, heq, overlaid_written hi hk hcount heq⟩
  · have hbeyond : ∀ k < new.length, source + i = target + k → i < old.length → count ≤ k :=
      fun k hk heq hi => Nat.not_lt.mp fun hcount => hwritten ⟨k, hcount, hk, hi, heq⟩
    refine .inr ⟨?_, hbeyond⟩
    by_cases hi : i < old.length
    · exact overlaid_kept fun k hk heq => hbeyond k hk heq hi
    · have hlength := length_overlaid source target old (new.take count)
      rw [List.getElem?_eq_none (by omega), List.getElem?_eq_none (Nat.not_lt.mp hi)]

theorem Spared.overlaid_eq (h : Spared source target old new) (count : Nat) :
    overlaid source target old (new.take count) = old := by
  apply List.ext_getElem?
  intro i
  obtain ⟨k, _, hk, hi, heq, hcell⟩ | ⟨hcell, _⟩ :=
    overlaid_cases source target old new i count
  · rw [hcell, h i k hi hk heq]
  · exact hcell

theorem Alike.overlaid_eq (h : Alike source target old new) (count : Nat) :
    overlaid source target old (new.take count) = old ∨
      overlaid source target old (new.take count) = new := by
  by_cases hsame : overlaid source target old (new.take count) = old
  · exact .inl hsame
  -- The one cell in which the lists differ was written, and the others are those of both.
  have hdiffers : ∃ i : Nat, (overlaid source target old (new.take count))[i]? ≠ old[i]? := by
    by_contra hnone
    push Not at hnone
    exact hsame (List.ext_getElem? hnone)
  obtain ⟨i, hi⟩ := hdiffers
  refine .inr (List.ext_getElem? fun j => ?_)
  have hcell : ∀ {j : Nat}, (overlaid source target old (new.take count))[j]? = new[j]? ∨
      (overlaid source target old (new.take count))[j]? = old[j]? := by
    intro j
    obtain ⟨k, _, hk, hlt, heq, hcell⟩ | ⟨hcell, _⟩ :=
      overlaid_cases source target old new j count
    · exact .inl (hcell.trans (h.repeats j k (h.length ▸ hlt) hk heq).symm)
    · exact .inr hcell
  have hnew : (overlaid source target old (new.take count))[i]? = new[i]? := hcell.resolve_right hi
  rcases hcell with hj | hj
  · exact hj
  · rw [hj]
    by_contra hne
    have heq := h.once i j (fun hold => hi (hnew.trans hold.symm)) hne
    exact hi (heq ▸ hj)

/-- At every moment the reader sees one of the lists just when they agree where they overlap, or
are almost alike. -/
theorem overlaid_iff :
    (∀ count ≤ new.length, overlaid source target old (new.take count) = old ∨
      overlaid source target old (new.take count) = new) ↔
    Spared source target old new ∨ Alike source target old new := by
  constructor
  · intro h
    by_cases hspared : Spared source target old new
    · exact .inl hspared
    refine .inr ?_
    have hconflict : ∃ k, ∃ i, i < old.length ∧ k < new.length ∧ source + i = target + k ∧
        old[i]? ≠ new[k]? := by
      unfold Spared at hspared
      push Not at hspared
      obtain ⟨i, k, hi, hk, heq, hne⟩ := hspared
      exact ⟨k, i, hi, hk, heq, hne⟩
    classical
    -- From the first conflict on, the reader can only see the new list.
    obtain ⟨i, hi, hk, heq, hne⟩ := Nat.find_spec hconflict
    have hfirst := fun {k} => @Nat.find_min _ _ hconflict k
    generalize Nat.find hconflict = k at hk heq hne hfirst
    have hnew : ∀ count, k < count → count ≤ new.length →
        overlaid source target old (new.take count) = new := by
      intro count hcount hle
      refine (h count hle).resolve_left fun hsame => hne ?_
      rw [← overlaid_written hi hk hcount heq, hsame]
    have hlength : old.length = new.length := by
      rw [← hnew (k + 1) (Nat.lt_succ_self k) hk, length_overlaid]
    have hrepeats : ∀ j m, j < new.length → m < new.length → source + j = target + m →
        new[j]? = new[m]? := by
      intro j m hj hm hjm
      have hall := hnew new.length hk le_rfl
      rw [← overlaid_written (hlength ▸ hj) hm hm hjm, hall]
    have hsame : ∀ j, j ≠ i → old[j]? = new[j]? := by
      intro j hji
      have hshown : (overlaid source target old (new.take (k + 1)))[j]? = new[j]? := by
        rw [hnew (k + 1) (Nat.lt_succ_self k) hk]
      obtain ⟨m, hlt, hm, hj, hjm, hcell⟩ | ⟨hcell, _⟩ :=
        overlaid_cases source target old new j (k + 1)
      · by_contra hdiffers
        refine hfirst (show m < k by omega) ⟨j, hj, hm, hjm, fun hold => hdiffers ?_⟩
        rw [hold, ← hrepeats j m (hlength ▸ hj) hm hjm]
      · rw [← hcell, hshown]
    refine ⟨hlength, hrepeats, fun first second hfirst hsecond => ?_⟩
    have hleft : first = i := by
      by_contra hother
      exact hfirst (hsame first hother)
    have hright : second = i := by
      by_contra hother
      exact hsecond (hsame second hother)
    rw [hleft, hright]
  · rintro (hspared | halike) count -
    · exact .inl (hspared.overlaid_eq count)
    · exact halike.overlaid_eq count

end MerkleTox.Library
