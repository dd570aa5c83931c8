import Mathlib.Data.List.Basic
import Mathlib.Tactic.Common

/-! # Files written at arbitrary offsets

A write at an offset replaces what is there and grows the file as needed; what it skips
reads as a blank. A file mirrors a partial function from positions when it has its values,
blanks elsewhere, and ends with its last value.
-/

namespace MerkleTox.Library

variable {offset place position : Nat}

universe uByte

variable {Byte : Type uByte} (blank : Byte)

/-- Write data at an offset; nothing happens when there is none. -/
def writeAt (file : List Byte) (offset : Nat) (data : List Byte) : List Byte :=
  if data.isEmpty then file
  else
    (file ++ List.replicate (offset - file.length) blank).take offset ++ data ++
      file.drop (offset + data.length)

/-- What is known at each position after a write. -/
def writeOver (known : Nat → Option Byte) (offset : Nat) (data : List Byte) (position : Nat) :
    Option Byte :=
  if offset ≤ position ∧ position < offset + data.length then data[position - offset]?
  else known position

/-- The file has the known values, blanks between them, and ends with the last of them. -/
structure Mirrors (file : List Byte) (known : Nat → Option Byte) : Prop where
  within : ∀ position < file.length, file[position]? = some ((known position).getD blank)
  beyond : ∀ position, file.length ≤ position → known position = none
  ends : ∀ length, file.length = length + 1 → (known length).isSome = true

theorem length_writeAt (file : List Byte) (offset : Nat) (data : List Byte) :
    (writeAt blank file offset data).length =
      if data.isEmpty then file.length else max file.length (offset + data.length) := by
  unfold writeAt
  split
  · rfl
  · simp only [List.length_append, List.length_take, List.length_replicate, List.length_drop]
    omega

variable {blank}

theorem getElem?_writeAt (file : List Byte) (offset : Nat) (data : List Byte) (position : Nat)
    (hposition : position < (writeAt blank file offset data).length) :
    (writeAt blank file offset data)[position]? =
      if offset ≤ position ∧ position < offset + data.length then data[position - offset]?
      else if position < file.length then file[position]? else some blank := by
  have hlength := length_writeAt blank file offset data
  unfold writeAt at hposition hlength ⊢
  cases data with
  | nil =>
      simp only [List.isEmpty_nil, if_true] at hposition
      simp [hposition]
  | cons first rest =>
      simp only [List.isEmpty_cons, Bool.false_eq_true, if_false] at hposition hlength ⊢
      generalize hdata : first :: rest = data at hposition hlength ⊢
      have hfront : ((file ++ List.replicate (offset - file.length) blank).take offset).length =
          offset := by
        rw [List.length_take, List.length_append, List.length_replicate]
        omega
      rcases Nat.lt_or_ge position offset with hbefore | hfrom
      · rw [List.append_assoc, List.getElem?_append_left (by omega),
          List.getElem?_take_of_lt hbefore, if_neg (by omega), List.getElem?_append]
        split
        · rfl
        · rw [List.getElem?_replicate, if_pos (by omega)]
      · rw [List.append_assoc, List.getElem?_append_right (by omega), hfront, List.getElem?_append]
        by_cases hin : position < offset + data.length
        · rw [if_pos (by omega), if_pos ⟨hfrom, hin⟩]
        · rw [if_neg (by omega), if_neg (by omega), List.getElem?_drop, if_pos (by omega)]
          congr 1
          omega

/-! ## Data at an offset -/

/-- The file has the data at the offset. -/
def StoredAt (file : List Byte) (offset : Nat) (data : List Byte) : Prop :=
  ∀ index < data.length, file[offset + index]? = data[index]?

theorem StoredAt.drop {file data : List Byte} (h : StoredAt file offset data) :
    file.drop offset = data ++ file.drop (offset + data.length) := by
  apply List.ext_getElem?
  intro index
  rw [List.getElem?_drop]
  by_cases hin : index < data.length
  · rw [h index hin, List.getElem?_append_left hin]
  · rw [List.getElem?_append_right (Nat.not_lt.mp hin), List.getElem?_drop]
    congr 1
    omega

theorem storedAt_writeAt (file : List Byte) (offset : Nat) (data : List Byte) :
    StoredAt (writeAt blank file offset data) offset data := by
  intro index hindex
  have hlength := length_writeAt blank file offset data
  have hnonempty : data.isEmpty = false := by
    rw [List.isEmpty_eq_false_iff]
    exact List.ne_nil_of_length_pos (Nat.zero_lt_of_lt hindex)
  rw [hnonempty, if_neg Bool.false_ne_true] at hlength
  rw [getElem?_writeAt file offset data _ (by omega), if_pos (by omega), Nat.add_sub_cancel_left]

/-- A write elsewhere leaves the data. -/
theorem StoredAt.writeAt {file kept : List Byte} (h : StoredAt file place kept) {data : List Byte}
    (hapart : place + kept.length ≤ offset ∨ offset + data.length ≤ place) :
    StoredAt (writeAt blank file offset data) place kept := by
  intro index hindex
  have hlength := length_writeAt blank file offset data
  have hold := h index hindex
  have hlt : place + index < file.length := by
    rw [List.getElem?_eq_getElem hindex] at hold
    exact (List.getElem?_eq_some_iff.mp hold).1
  have hwithin : place + index < (Library.writeAt blank file offset data).length := by
    rw [hlength]
    split <;> omega
  rw [getElem?_writeAt file offset data _ hwithin, if_neg (by omega), if_pos hlt, hold]

/-! ## Files with known values -/

theorem mirrors_nil : Mirrors blank [] fun _ => none where
  within _ h := absurd h (Nat.not_lt_zero _)
  beyond _ _ := rfl
  ends _ h := nomatch h

variable {file : List Byte} {known : Nat → Option Byte}

theorem Mirrors.writeAt (h : Mirrors blank file known) (offset : Nat) (data : List Byte) :
    Mirrors blank (writeAt blank file offset data) (writeOver known offset data) := by
  have hlength := length_writeAt blank file offset data
  refine ⟨fun position hposition => ?_, fun position hposition => ?_, fun length heq => ?_⟩
  · rw [getElem?_writeAt file offset data position hposition, writeOver]
    split
    next hin => rw [List.getElem?_eq_getElem (by omega), Option.getD_some]
    next =>
      split
      next hold => exact h.within position hold
      next hnew => rw [h.beyond position (Nat.not_lt.mp hnew), Option.getD_none]
  · rw [hlength] at hposition
    rw [writeOver]
    split at hposition
    next hnil =>
      rw [List.isEmpty_iff.mp hnil, List.length_nil, if_neg (by omega)]
      exact h.beyond position hposition
    next =>
      rw [if_neg (by omega)]
      exact h.beyond position (by omega)
  · rw [hlength] at heq
    rw [writeOver]
    split at heq
    next hnil =>
      rw [List.isEmpty_iff.mp hnil, List.length_nil, if_neg (by omega)]
      exact h.ends length heq
    next hdata =>
      have hpos : 0 < data.length := List.length_pos_iff.mpr fun hnil => hdata (by simp [hnil])
      by_cases hin : offset ≤ length ∧ length < offset + data.length
      · rw [if_pos hin, List.getElem?_eq_getElem (by omega)]
        rfl
      · rw [if_neg hin]
        exact h.ends length (by omega)

/-- The file reaches up to a position just when there is something at it or beyond. -/
theorem Mirrors.lt_length_iff (h : Mirrors blank file known) :
    position < file.length ↔ ∃ last, position ≤ last ∧ (known last).isSome = true := by
  constructor
  · intro hlt
    obtain ⟨length, hlength⟩ := Nat.exists_eq_add_one_of_ne_zero (Nat.ne_zero_of_lt hlt)
    exact ⟨length, by omega, h.ends length hlength⟩
  · rintro ⟨last, hle, hsome⟩
    by_contra hnot
    rw [h.beyond last (by omega)] at hsome
    cases hsome

/-- A part of the file that is there has the known values and blanks between them. -/
theorem Mirrors.slice (h : Mirrors blank file known) {length : Nat}
    (hend : offset + length ≤ file.length) :
    (file.drop offset).take length =
      (List.range length).map fun index => (known (offset + index)).getD blank := by
  apply List.ext_getElem?
  intro index
  by_cases hin : index < length
  · rw [List.getElem?_take_of_lt hin, List.getElem?_drop, h.within _ (by omega), List.getElem?_map,
      List.getElem?_range hin]
    rfl
  · rw [List.getElem?_eq_none (by simp; omega), List.getElem?_eq_none (by simp; omega)]

end MerkleTox.Library
