import Mathlib.Data.List.Basic
import Mathlib.Data.Nat.Bitwise
import Mathlib.Tactic.Common
import Mathlib.Tactic.IntervalCases

/-! # Bits in an array of bytes

Bit `i` is bit `i % 8` of byte `i / 8`. Bits are set one by one and never cleared, so whatever
was set on the way is set in the end.
-/

namespace MerkleTox.Library

def setBit (bytes : List UInt8) (i : Nat) : List UInt8 :=
  bytes.modify (i / 8) fun byte => byte ||| 1 <<< UInt8.ofNat (i % 8)

def bitOf (byte : UInt8) (i : Nat) : Bool := byte &&& 1 <<< UInt8.ofNat (i % 8) != 0

def testBit (bytes : List UInt8) (i : Nat) : Bool := (bytes[i / 8]?).any fun byte => bitOf byte i

@[simp]
theorem length_setBit (bytes : List UInt8) (i : Nat) : (setBit bytes i).length = bytes.length :=
  List.length_modify _ _ _

theorem toBitVec_mask (i : Nat) :
    (1 <<< UInt8.ofNat (i % 8) : UInt8).toBitVec = BitVec.twoPow 8 (i % 8) := by
  have hi : i % 8 < 8 := Nat.mod_lt i (by decide)
  generalize i % 8 = place at hi
  interval_cases place <;> rfl

theorem bitOf_eq (byte : UInt8) (i : Nat) : bitOf byte i = byte.toBitVec.getLsbD (i % 8) := by
  have hi : i % 8 < 8 := Nat.mod_lt i (by decide)
  have hne : BitVec.twoPow 8 (i % 8) ≠ 0#8 := fun hzero => by
    have hbit := BitVec.getLsbD_twoPow (w := 8) (i % 8) (i % 8)
    rw [hzero, BitVec.getLsbD_zero] at hbit
    simp [hi] at hbit
  rw [bitOf, Bool.eq_iff_iff, bne_iff_ne, ne_eq, ← UInt8.toBitVec_inj, UInt8.toBitVec_and,
    toBitVec_mask, BitVec.and_twoPow]
  split
  next hset => exact iff_of_true hne hset
  next hclear => exact iff_of_false (fun h => h rfl) hclear

/-- Setting a bit of a byte sets it, and keeps the other bits. -/
theorem bitOf_or (byte : UInt8) (i j : Nat) :
    bitOf (byte ||| 1 <<< UInt8.ofNat (i % 8)) j = (bitOf byte j || decide (i % 8 = j % 8)) := by
  have hi : i % 8 < 8 := Nat.mod_lt i (by decide)
  rw [bitOf_eq, bitOf_eq, UInt8.toBitVec_or, BitVec.getLsbD_or, toBitVec_mask,
    BitVec.getLsbD_twoPow, decide_eq_true hi, Bool.true_and]

theorem testBit_setBit {bytes : List UInt8} {i : Nat} (hi : i / 8 < bytes.length) (j : Nat) :
    testBit (setBit bytes i) j = (testBit bytes j || decide (i = j)) := by
  unfold testBit setBit
  rw [List.getElem?_modify]
  by_cases hbyte : i / 8 = j / 8
  · simp only [if_pos hbyte]
    rw [← hbyte, List.getElem?_eq_getElem hi]
    have hsame : decide (i % 8 = j % 8) = decide (i = j) := by
      rw [Bool.eq_iff_iff, decide_eq_true_eq, decide_eq_true_eq]
      omega
    rw [Option.map_eq_map, Option.map_some, Option.any_some, Option.any_some, bitOf_or, hsame]
  · have hne : i ≠ j := fun heq => hbyte (heq ▸ rfl)
    simp [hbyte, hne]

/-- Setting bits one after the other. -/
theorem testBit_foldl_setBit {bytes : List UInt8} {places : List Nat}
    (hplaces : ∀ i ∈ places, i / 8 < bytes.length) (j : Nat) :
    testBit (places.foldl setBit bytes) j = (testBit bytes j || decide (j ∈ places)) := by
  induction places generalizing bytes with
  | nil => simp
  | cons i rest ih =>
      rw [List.forall_mem_cons] at hplaces
      have hrest := @ih (setBit bytes i) (by simpa using hplaces.2)
      have hmem : decide (j ∈ i :: rest) = (decide (i = j) || decide (j ∈ rest)) := by
        rw [Bool.eq_iff_iff, decide_eq_true_eq, Bool.or_eq_true, decide_eq_true_eq,
          decide_eq_true_eq, List.mem_cons]
        exact or_congr_left eq_comm
      rw [List.foldl_cons, hrest, testBit_setBit hplaces.1, Bool.or_assoc, hmem]

end MerkleTox.Library
