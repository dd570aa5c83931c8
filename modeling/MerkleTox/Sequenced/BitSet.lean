import Mathlib.Data.BitVec
import Mathlib.Data.List.Range
import Mathlib.Tactic.Ring

/-! # Fragment bit sets

A bit set of `N` words of 64 bits tracks the received or acknowledged fragments
of one message. Reading outside the capacity gives `false`, writing there is
refused. The queries of the source work word by word; the lemmas here restate
them through `get`, so that no later proof looks at a word.
-/

namespace MerkleTox.Sequenced

variable {w i index j start : Nat}

/-- `[u64; N]`, bit `i` being bit `i % 64` of word `i / 64`. -/
structure BitSet (N : Nat) where
  words : Vector (BitVec 64) N
  deriving DecidableEq

/-- `u64::trailing_zeros`: the index of the lowest set bit, the width when there is none. -/
def trailingZeros (x : BitVec w) : Nat := ((List.range w).find? x.getLsbD).getD w

/-- `u64::leading_zeros`. -/
def leadingZeros (x : BitVec w) : Nat :=
  ((List.range w).find? fun i => x.getLsbD (w - 1 - i)).getD w

namespace BitSet

variable {N : Nat}

def new : BitSet N := ⟨Vector.replicate N 0⟩

/-- `self.words[k]`; every access of the source is below `N`. -/
def word (bits : BitSet N) (k : Nat) : BitVec 64 := bits.words[k]?.getD 0

def get (bits : BitSet N) (index : Nat) : Bool :=
  if N * 64 ≤ index then false
  else (bits.word (index / 64) &&& (1#64 <<< (index % 64))) != 0

/-- Sets a bit and reports whether it was clear before. -/
def set (bits : BitSet N) (index : Nat) : Bool × BitSet N :=
  if N * 64 ≤ index then (false, bits)
  else
    let word := index / 64
    let mask : BitVec 64 := 1#64 <<< (index % 64)
    if bits.word word &&& mask = 0 then
      (true, ⟨bits.words.setIfInBounds word (bits.word word ||| mask)⟩)
    else (false, bits)

/-- Clears a bit and reports whether it was set before. -/
def unset (bits : BitSet N) (index : Nat) : Bool × BitSet N :=
  if N * 64 ≤ index then (false, bits)
  else
    let word := index / 64
    let mask : BitVec 64 := 1#64 <<< (index % 64)
    if bits.word word &&& mask ≠ 0 then
      (true, ⟨bits.words.setIfInBounds word (bits.word word &&& ~~~mask)⟩)
    else (false, bits)

/-- The first clear bit in `[start, limit)`, scanning word by word. Every round
moves `idx` up, so `limit - start` rounds are enough. -/
def nextZero (bits : BitSet N) (start limit : Nat) : Option Nat :=
  go (limit - start) start
where
  go : Nat → Nat → Option Nat
  | 0, _ => none
  | rounds + 1, idx =>
      if limit ≤ idx then none
      else if N ≤ idx / 64 then some idx
      else
        let mask : BitVec 64 := ~~~((1#64 <<< (idx % 64)) - 1)
        let masked := ~~~(bits.word (idx / 64)) &&& mask
        if masked ≠ 0 then
          let found := idx / 64 * 64 + trailingZeros masked
          if found < limit then some found else none
        else go rounds ((idx / 64 + 1) * 64)

/-- The highest set bit below `limit`. -/
def lastOne (bits : BitSet N) (limit : Nat) : Option Nat :=
  let limit := min limit (N * 64)
  if limit = 0 then none
  else
    let lastIdx := limit - 1
    let wordIdx := lastIdx / 64
    let bitLimit := lastIdx % 64 + 1
    if bitLimit < 64 then
      let masked := bits.word wordIdx &&& ((1#64 <<< bitLimit) - 1)
      if masked ≠ 0 then some (wordIdx * 64 + (63 - leadingZeros masked))
      else match wordIdx with
        | 0 => none
        | below + 1 => go below
    else go wordIdx
where
  go : Nat → Option Nat
  | 0 => if bits.word 0 ≠ 0 then some (63 - leadingZeros (bits.word 0)) else none
  | k + 1 =>
      if bits.word (k + 1) ≠ 0 then some ((k + 1) * 64 + (63 - leadingZeros (bits.word (k + 1))))
      else go k

/-- The 64 bits after `baseIndex`, bit 0 being fragment `baseIndex + 1`. -/
def sackMask (bits : BitSet N) (baseIndex : Nat) : BitVec 64 :=
  let start := baseIndex + 1
  let wordIdx := start / 64
  let bitIdx := start % 64
  if N ≤ wordIdx then 0
  else
    let mask := bits.word wordIdx >>> bitIdx
    if 0 < bitIdx ∧ wordIdx + 1 < N then mask ||| (bits.word (wordIdx + 1) <<< (64 - bitIdx))
    else mask

theorem getLsbD_mask (i j : Nat) (hi : i < 64) :
    (1#64 <<< i).getLsbD j = decide (j = i) := by
  rw [BitVec.getLsbD_shiftLeft, BitVec.getLsbD_one]
  by_cases hj : j = i
  · simp [hj, hi]
  · simp [hj]
    omega

theorem and_mask_ne_zero (x : BitVec 64) (hi : i < 64) :
    (x &&& (1#64 <<< i)) ≠ 0 ↔ x.getLsbD i = true := by
  constructor
  · intro hne
    by_contra hbit
    apply hne
    apply BitVec.eq_of_getLsbD_eq
    intro j _
    rw [BitVec.getLsbD_and, getLsbD_mask i j hi]
    by_cases hj : j = i
    · simp [hj, Bool.eq_false_of_not_eq_true hbit]
    · simp [hj]
  · intro hbit hzero
    have hbits := congrArg (fun y : BitVec 64 => y.getLsbD i) hzero
    simp only [BitVec.getLsbD_and, getLsbD_mask i i hi, hbit] at hbits
    simp at hbits

variable (bits : BitSet N)

/-- `get` through the bits of a word. -/
theorem get_eq (index : Nat) :
    bits.get index = (decide (index < N * 64) && (bits.word (index / 64)).getLsbD (index % 64)) := by
  unfold get
  split
  next h => simp [Nat.not_lt.mpr h]
  next h =>
    have hbit := and_mask_ne_zero (bits.word (index / 64)) (Nat.mod_lt index (by decide : 64 > 0))
    rw [Bool.eq_iff_iff, bne_iff_ne, hbit]
    simp [Nat.not_le.mp h]

@[simp]
theorem get_new (index : Nat) : (new : BitSet N).get index = false := by
  simp only [get_eq, word, new, Vector.getElem?_replicate]
  split <;> simp

theorem get_of_le (h : N * 64 ≤ index) :
    bits.get index = false := by
  simp [get, h]

theorem word_setIfInBounds (k j : Nat) (x : BitVec 64) (hk : k < N) :
    (⟨bits.words.setIfInBounds k x⟩ : BitSet N).word j = if j = k then x else bits.word j := by
  simp only [word, Vector.getElem?_setIfInBounds]
  by_cases hj : j = k
  · simp [hj, hk]
  · simp [hj, Ne.symm hj]

theorem div_mod_ne (hne : j ≠ i) (hdiv : j / 64 = i / 64) : j % 64 ≠ i % 64 := by
  omega

/-- The answer of `set`: whether the bit was clear and in range. -/
theorem set_fst (index : Nat) :
    (bits.set index).1 = (decide (index < N * 64) && !bits.get index) := by
  unfold set
  split
  next h => simp [Nat.not_lt.mpr h]
  next h =>
    have hbit := and_mask_ne_zero (bits.word (index / 64)) (Nat.mod_lt index (by decide : 64 > 0))
    have hlt := Nat.not_le.mp h
    rw [get_eq]
    dsimp only
    split
    next hzero =>
      have hclear : (bits.word (index / 64)).getLsbD (index % 64) = false := by
        rw [← Bool.not_eq_true, ← hbit]
        exact not_not.mpr hzero
      simp [hlt, hclear]
    next hset => simp [hbit.mp hset]

/-- When the answer of `set` is no, nothing has changed. -/
theorem set_snd_of_fst {bits : BitSet N} (h : (bits.set index).1 = false) :
    (bits.set index).2 = bits := by
  unfold set at h ⊢
  split
  next => rfl
  next hin =>
    rw [if_neg hin] at h
    dsimp only at h ⊢
    split
    next hclear =>
      rw [if_pos hclear] at h
      cases h
    next => rfl

/-- Setting a bit adds exactly that index, when it is in range. -/
theorem get_set (index other : Nat) :
    (bits.set index).2.get other =
      (bits.get other || (decide (other = index) && decide (index < N * 64))) := by
  unfold set
  split
  next h => simp [Nat.not_lt.mpr h]
  next h =>
    have hlt := Nat.not_le.mp h
    have hmod := Nat.mod_lt index (by decide : 64 > 0)
    have hword : index / 64 < N := Nat.div_lt_of_lt_mul (by omega)
    have hbit := and_mask_ne_zero (bits.word (index / 64)) hmod
    dsimp only
    split
    next hzero =>
      rw [get_eq, get_eq, word_setIfInBounds _ _ _ _ hword]
      by_cases hsame : other / 64 = index / 64
      · rw [if_pos hsame, BitVec.getLsbD_or, getLsbD_mask _ _ hmod, ← hsame]
        by_cases heq : other = index
        · simp [heq, hlt]
        · simp [heq, div_mod_ne heq hsame]
      · have heq : other ≠ index := fun heq => hsame (by rw [heq])
        simp [hsame, heq]
    next hset =>
      by_cases heq : other = index
      · have hget : bits.get index = true := by simp [get_eq, hlt, hbit.mp hset]
        simp [heq, hget]
      · simp [heq]

theorem get_set_of_get {other : Nat} (h : bits.get other = true) :
    (bits.set index).2.get other = true := by
  simp [get_set, h]

/-- Clearing a bit removes exactly that index. -/
theorem get_unset (index other : Nat) :
    (bits.unset index).2.get other = (bits.get other && !decide (other = index)) := by
  unfold unset
  split
  next h =>
    by_cases heq : other = index
    · simp [heq, bits.get_of_le h]
    · simp [heq]
  next h =>
    have hmod := Nat.mod_lt index (by decide : 64 > 0)
    have hword : index / 64 < N := Nat.div_lt_of_lt_mul (by omega)
    have hbit := and_mask_ne_zero (bits.word (index / 64)) hmod
    dsimp only
    split
    next hset =>
      rw [get_eq, get_eq, word_setIfInBounds _ _ _ _ hword]
      by_cases hsame : other / 64 = index / 64
      · have hlt : other % 64 < 64 := Nat.mod_lt other (by decide : 64 > 0)
        rw [if_pos hsame, BitVec.getLsbD_and, BitVec.getLsbD_not, getLsbD_mask _ _ hmod, ← hsame]
        by_cases heq : other = index
        · simp [heq]
        · simp [heq, div_mod_ne heq hsame, hlt]
      · have heq : other ≠ index := fun heq => hsame (by rw [heq])
        simp [hsame, heq]
    next hclear =>
      by_cases heq : other = index
      · have hget : bits.get index = false := by
          rw [get_eq, Bool.and_eq_false_iff, ← Bool.not_eq_true ((bits.word _).getLsbD _), ← hbit]
          exact .inr hclear
        simp [heq, hget]
      · simp [heq]

theorem trailingZeros_getLsbD {x : BitVec w} (hne : x ≠ 0) :
    x.getLsbD (trailingZeros x) = true ∧ trailingZeros x < w := by
  unfold trailingZeros
  cases hfind : (List.range w).find? x.getLsbD with
  | none =>
      refine absurd (BitVec.eq_of_getLsbD_eq fun i hi => ?_) hne
      have hclear := List.find?_eq_none.mp hfind i (List.mem_range.mpr hi)
      simpa using hclear
  | some i =>
      exact ⟨List.find?_some hfind, List.mem_range.mp (List.mem_of_find?_eq_some hfind)⟩

theorem getLsbD_of_lt_trailingZeros {x : BitVec w} (hj : j < trailingZeros x) :
    x.getLsbD j = false := by
  unfold trailingZeros at hj
  cases hfind : (List.range w).find? x.getLsbD with
  | none =>
      rw [hfind] at hj
      have hclear := List.find?_eq_none.mp hfind j (List.mem_range.mpr hj)
      simpa using hclear
  | some i =>
      rw [hfind] at hj
      have hbefore := (List.find?_range_eq_some.mp hfind).2.2 j hj
      simpa using hbefore

/-- The mask `!((1 << b) - 1)` keeps only the bits from `b` on. -/
theorem getLsbD_highMask {b : Nat} (hb : b < 64) :
    (~~~((1#64 <<< b) - 1)).getLsbD j = (decide (j < 64) && decide (b ≤ j)) := by
  have hpow : 2 ^ b < 2 ^ 64 := Nat.pow_lt_pow_right (by decide) hb
  have hpos : 0 < 2 ^ b := Nat.two_pow_pos b
  have hsub : ((1#64 <<< b) - 1).toNat = 2 ^ b - 1 := by
    rw [BitVec.toNat_sub, BitVec.toNat_shiftLeft, BitVec.toNat_ofNat, Nat.shiftLeft_eq]
    simp only [BitVec.ofNat_eq_ofNat, BitVec.toNat_ofNat]
    omega
  have hbit : ((1#64 <<< b) - 1).getLsbD j = decide (j < b) := by
    rw [BitVec.getLsbD, hsub, Nat.testBit_two_pow_sub_one]
  rw [BitVec.getLsbD_not, hbit, ← decide_not]
  simp

/-- What `nextZero` can answer: the first clear bit, or that there is none. -/
inductive NextZero (bits : BitSet N) (start limit : Nat) : Option Nat → Prop
  | found {idx : Nat} (hstart : start ≤ idx) (hlimit : idx < limit)
      (hclear : bits.get idx = false)
      (hbefore : ∀ i, start ≤ i → i < idx → bits.get i = true) : NextZero bits start limit
        (some idx)
  | none (hall : ∀ i, start ≤ i → i < limit → bits.get i = true) : NextZero bits start limit none

theorem NextZero.extend {bits : BitSet N} {middle limit : Nat} {answer : Option Nat}
    (h : NextZero bits middle limit answer) (hle : start ≤ middle)
    (hset : ∀ i, start ≤ i → i < middle → bits.get i = true) :
    NextZero bits start limit answer := by
  cases h with
  | found hmiddle hlimit hclear hbefore =>
      refine .found (hle.trans hmiddle) hlimit hclear fun i hi hlt => ?_
      rcases Nat.lt_or_ge i middle with hlow | hhigh
      · exact hset i hi hlow
      · exact hbefore i hhigh hlt
  | none hall =>
      refine .none fun i hi hlt => ?_
      rcases Nat.lt_or_ge i middle with hlow | hhigh
      · exact hset i hi hlow
      · exact hall i hhigh hlt

/-- The search for a property inside the word of `start`, given the bits from `start` on. -/
structure FirstInWord (masked : BitVec 64) (p : Nat → Bool) (start : Nat) : Prop where
  found : masked ≠ 0 → start ≤ start / 64 * 64 + trailingZeros masked ∧
    p (start / 64 * 64 + trailingZeros masked) = true ∧
      ∀ i, start ≤ i → i < start / 64 * 64 + trailingZeros masked → p i = false
  absent : masked = 0 → ∀ i, start ≤ i → i < (start / 64 + 1) * 64 → p i = false

theorem FirstInWord.of_word {x : BitVec 64} {p : Nat → Bool}
    (hp : ∀ i, i / 64 = start / 64 → x.getLsbD (i % 64) = p i) :
    FirstInWord (x &&& ~~~((1#64 <<< (start % 64)) - 1)) p start := by
  have hmod : start % 64 < 64 := Nat.mod_lt _ (by decide)
  have hbit : ∀ j, (x &&& ~~~((1#64 <<< (start % 64)) - 1)).getLsbD j =
      (x.getLsbD j && (decide (j < 64) && decide (start % 64 ≤ j))) := fun j => by
    rw [BitVec.getLsbD_and, getLsbD_highMask hmod]
  generalize x &&& ~~~((1#64 <<< (start % 64)) - 1) = masked at hbit
  -- in this word, from `start` on, the masked bits are the property
  have hword : ∀ i, start ≤ i → i / 64 = start / 64 → masked.getLsbD (i % 64) = p i := by
    intro i hi hsame
    have hle : start % 64 ≤ i % 64 := by omega
    rw [hbit, hp i hsame]
    simp [hle, Nat.mod_lt i (by decide : 64 > 0)]
  refine ⟨fun hmasked => ?_, fun hmasked i hi hlt => ?_⟩
  · obtain ⟨hfirst, hwidth⟩ := trailingZeros_getLsbD hmasked
    have hge : start % 64 ≤ trailingZeros masked := by
      rw [hbit] at hfirst
      simp only [Bool.and_eq_true, decide_eq_true_eq] at hfirst
      exact hfirst.2.2
    refine ⟨by omega, ?_, fun i hi hlt => ?_⟩
    · have hmodulo : (start / 64 * 64 + trailingZeros masked) % 64 = trailingZeros masked := by
        omega
      rw [← hword _ (by omega) (by omega), hmodulo, hfirst]
    · rw [← hword i hi (by omega)]
      exact getLsbD_of_lt_trailingZeros (by omega)
  · rw [← hword i hi (by omega), hmasked]
    exact BitVec.getLsbD_zero

theorem nextZero_spec (start limit : Nat) :
    NextZero bits start limit (bits.nextZero start limit) := by
  unfold nextZero
  -- more rounds than the distance do no harm, since every round moves on
  suffices h : ∀ rounds start, limit - start ≤ rounds →
      NextZero bits start limit (nextZero.go bits limit rounds start) from h _ _ le_rfl
  intro rounds
  induction rounds with
  | zero => exact fun start hrounds => .none fun i hi hlt => by omega
  | succ rounds ih =>
      intro start hrounds
      unfold nextZero.go
      split
      next hlimit => exact .none fun i hi hlt => by omega
      next hlimit =>
      split
      next hout => exact .found le_rfl (by omega) (bits.get_of_le (by omega)) fun i hi hlt => by omega
      next hin =>
        -- the inverted word marks the clear bits
        have hword : ∀ i, i / 64 = start / 64 →
            (~~~(bits.word (start / 64))).getLsbD (i % 64) = !bits.get i := by
          intro i hsame
          have hlt : i < N * 64 := by omega
          rw [BitVec.getLsbD_not, get_eq, hsame]
          simp [hlt, Nat.mod_lt i (by decide : 64 > 0)]
        have hfirst := FirstInWord.of_word hword
        dsimp only
        generalize ~~~(bits.word (start / 64)) &&& ~~~((1#64 <<< (start % 64)) - 1) = masked
          at hfirst
        split
        next hmasked =>
          obtain ⟨hge, hclear, hbefore⟩ := hfirst.found hmasked
          rw [Bool.not_eq_true'] at hclear
          have hset : ∀ i, start ≤ i → i < start / 64 * 64 + trailingZeros masked →
              bits.get i = true := fun i hi hlt => by simpa using hbefore i hi hlt
          split
          next hfound => exact .found hge hfound hclear hset
          next hbeyond => exact .none fun i hi hlt => hset i hi (by omega)
        next hzero =>
          have hfull : ∀ i, start ≤ i → i < (start / 64 + 1) * 64 → bits.get i = true :=
            fun i hi hlt => by simpa using hfirst.absent (not_not.mp hzero) i hi hlt
          exact (ih ((start / 64 + 1) * 64) (by omega)).extend (by omega) hfull

/-- A zero that `nextZero` reports lies in the searched range. -/
theorem nextZero_bounds {bits : BitSet N} {limit found : Nat}
    (h : bits.nextZero start limit = some found) : start ≤ found ∧ found < limit := by
  have hspec := bits.nextZero_spec start limit
  rw [h] at hspec
  cases hspec with
  | found hstart hlimit _ _ => exact ⟨hstart, hlimit⟩

/-- Bit `j` of the selective-acknowledgement mask is fragment `baseIndex + 1 + j`. -/
theorem getLsbD_sackMask (baseIndex j : Nat) (hj : j < 64) :
    (bits.sackMask baseIndex).getLsbD j = bits.get (baseIndex + 1 + j) := by
  unfold sackMask
  dsimp only
  generalize hstart : baseIndex + 1 = start
  have hmod := Nat.mod_lt start (by decide : 64 > 0)
  have hdiv := Nat.div_add_mod start 64
  rw [get_eq]
  split
  next hN =>
    have hout : ¬ start + j < N * 64 := by omega
    simp [hout]
  next hN =>
    by_cases hsame : start % 64 + j < 64
    · -- the bit lies in the first word
      have hword : (start + j) / 64 = start / 64 := by omega
      have hbit : (start + j) % 64 = start % 64 + j := by omega
      have hin : start + j < N * 64 := by omega
      have hshift : ¬ 64 - start % 64 ≤ j := by omega
      split <;> simp [hword, hbit, hin, hshift]
    · -- the bit lies in the second word, present when `0 < start % 64`
      have hword : (start + j) / 64 = start / 64 + 1 := by omega
      have hbit : (start + j) % 64 = j - (64 - start % 64) := by omega
      have hover : (bits.word (start / 64)).getLsbD (start % 64 + j) = false :=
        BitVec.getLsbD_of_ge _ _ (by omega)
      split
      next hnext =>
        have hin : start + j < N * 64 := by omega
        have hshift : ¬ j < 64 - start % 64 := by omega
        simp only [BitVec.getLsbD_or, BitVec.getLsbD_ushiftRight, hover, Bool.false_or,
          BitVec.getLsbD_shiftLeft, hj, hshift, hword, hbit, hin, decide_true, decide_false,
          Bool.not_false, Bool.and_self, Bool.true_and]
      next hnext =>
        have hout : ¬ start + j < N * 64 := by omega
        simp [hover, hout]

end BitSet

end MerkleTox.Sequenced
