import MerkleTox.Library.IndexSets
import MerkleTox.Library.Overflow
import MerkleTox.Sequenced.BitSet

/-! # Bit sets as sets of indices

A bit set is read as the finite set of the indices whose bit is set; what lies beyond its words is
not in it. Every query of the source, which goes word by word, is the same query on that set.
-/

namespace MerkleTox.Sequenced

open Library

variable {w i k j start baseIndex count limit b stop : Nat}

/-- `u64::trailing_ones`. -/
def trailingOnes (x : BitVec w) : Nat := trailingZeros (~~~x)

/-- `u64::count_ones`. -/
def countOnes (x : BitVec w) : Nat := ((List.range w).filter x.getLsbD).length

namespace BitSet

variable {N : Nat}

/-- `clear`, which gives what `new` gives. -/
def clear (_bits : BitSet N) : BitSet N := ⟨Vector.replicate N 0⟩

def fill (_bits : BitSet N) : BitSet N := ⟨Vector.replicate N (~~~0)⟩

/-- The first clear bit, clamped to `limit`: whole words are passed over. -/
def firstZero (bits : BitSet N) (limit : Nat) : Nat :=
  go bits.words.toList 0
where
  go : List (BitVec 64) → Nat → Nat
  | [], base => min base limit
  | word :: rest, base =>
      if word = ~~~0 then go rest (base + 64) else min (base + trailingOnes word) limit

/-- The first set bit in `[start, limit)`. -/
def nextOne (bits : BitSet N) (start limit : Nat) : Option Nat :=
  go (limit - start) start
where
  go : Nat → Nat → Option Nat
  | 0, _ => none
  | rounds + 1, idx =>
      if limit ≤ idx then none
      else if N ≤ idx / 64 then none
      else
        let mask : BitVec 64 := ~~~((1#64 <<< (idx % 64)) - 1)
        let masked := bits.word (idx / 64) &&& mask
        if masked ≠ 0 then
          let found := idx / 64 * 64 + trailingZeros masked
          if found < limit then some found else none
        else go rounds ((idx / 64 + 1) * 64)

/-- The next run of set bits in `[searchStart, limit)`, both ends cast to `u16`. -/
def nextRange (bits : BitSet N) (searchStart limit : Nat) : Option (Nat × Nat) :=
  match bits.nextOne searchStart limit with
  | none => none
  | some start =>
      let stop := (bits.nextZero start limit).getD limit
      some (start % 2 ^ 16, stop % 2 ^ 16)

/-- The set bits in `[start, stop)`: a part of the first word, whole words, a part of the last. -/
def countOnesBetween (bits : BitSet N) (start stop : Nat) : Nat :=
  let stop := min stop (N * 64)
  if stop ≤ start then 0
  else
    let startWord := start / 64
    let endWord := (stop - 1) / 64
    let startMask : BitVec 64 := ~~~0#64 <<< (start % 64)
    let endMask : BitVec 64 := ~~~0#64 >>> (63 - (stop - 1) % 64)
    if startWord = endWord then countOnes (bits.word startWord &&& (startMask &&& endMask))
    else
      let count := countOnes (bits.word startWord &&& startMask)
      let count := (List.range' (startWord + 1) (endWord - (startWord + 1))).foldl
        (fun count i => count + countOnes (bits.word i)) count
      count + countOnes (bits.word endWord &&& endMask)

/-- The 64 bits from `start` on, the part of `sackMask` behind its addition. -/
def maskFrom (bits : BitSet N) (start : Nat) : BitVec 64 :=
  let wordIdx := start / 64
  let bitIdx := start % 64
  if N ≤ wordIdx then 0
  else
    let mask := bits.word wordIdx >>> bitIdx
    if 0 < bitIdx ∧ wordIdx + 1 < N then mask ||| (bits.word (wordIdx + 1) <<< (64 - bitIdx))
    else mask

/-- `sackMask` with its addition in `usize`. -/
def sackMaskChecked (bits : BitSet N) (baseIndex : Nat) : Checked (BitVec 64) := do
  let start ← Checked.unsigned 64 (baseIndex + 1)
  pure (bits.maskFrom start)

/-! ## The set of a bit set -/

/-- The indices whose bit is set. -/
def indices (bits : BitSet N) : Finset Nat := (Finset.range (N * 64)).filter fun i => bits.get i

variable {bits : BitSet N} {x : BitVec 64} {set : Finset Nat}

@[simp]
theorem mem_indices : i ∈ bits.indices ↔ bits.get i = true := by
  rw [indices, Finset.mem_filter, Finset.mem_range, and_iff_right_iff_imp]
  intro hget
  by_contra hout
  rw [bits.get_of_le (Nat.not_lt.mp hout)] at hget
  cases hget

/-- The bits of a word are the indices of its stretch. -/
theorem getLsbD_word (hk : k < N) (hi : i / 64 = k) :
    (bits.word k).getLsbD (i % 64) = decide (i ∈ bits.indices) := by
  have hlt : i < N * 64 := by omega
  rw [Bool.eq_iff_iff, decide_eq_true_eq, mem_indices, get_eq, hi]
  simp [hlt]

theorem indices_new : (new : BitSet N).indices = ∅ := by
  ext i
  simp

theorem indices_set (bits : BitSet N) (index : Nat) :
    (bits.set index).2.indices =
      if index < N * 64 then insert index bits.indices else bits.indices := by
  ext i
  rw [mem_indices, get_set]
  split
  next h => simp [h, or_comm]
  next h => simp [h]

theorem indices_unset (bits : BitSet N) (index : Nat) :
    (bits.unset index).2.indices = bits.indices.erase index := by
  ext i
  rw [mem_indices, get_unset, Finset.mem_erase, mem_indices]
  simp [and_comm]

/-! ## The searches -/

theorem nextZero_eq (bits : BitSet N) (start limit : Nat) :
    bits.nextZero start limit = nextGap bits.indices start limit := by
  have hspec := bits.nextZero_spec start limit
  generalize bits.nextZero start limit = answer at hspec
  cases hspec with
  | found hstart hlimit hclear hbefore =>
      refine (nextGap_eq_some hstart hlimit ?_ fun i hi hlt => mem_indices.mpr (hbefore i hi hlt)).symm
      rw [mem_indices, hclear]
      exact Bool.false_ne_true
  | none hall => exact (nextGap_eq_none fun i hi hlt => mem_indices.mpr (hall i hi hlt)).symm

theorem nextOne_eq (bits : BitSet N) (start limit : Nat) :
    bits.nextOne start limit = nextIn bits.indices start limit := by
  unfold nextOne
  suffices h : ∀ rounds start, limit - start ≤ rounds →
      nextOne.go bits limit rounds start = nextIn bits.indices start limit from h _ _ le_rfl
  intro rounds
  induction rounds with
  | zero => exact fun start hrounds => (nextIn_eq_none fun i hi hlt => by omega).symm
  | succ rounds ih =>
      intro start hrounds
      unfold nextOne.go
      split
      next hlimit => exact (nextIn_eq_none fun i hi hlt => by omega).symm
      next hlimit =>
      split
      next hout =>
        refine (nextIn_eq_none fun i hi hlt => ?_).symm
        rw [mem_indices, bits.get_of_le (by omega)]
        exact Bool.false_ne_true
      next hin =>
        have hword : ∀ i, i / 64 = start / 64 →
            (bits.word (start / 64)).getLsbD (i % 64) = decide (i ∈ bits.indices) :=
          fun i hi => getLsbD_word (Nat.not_le.mp hin) hi
        have hfirst := FirstInWord.of_word hword
        dsimp only
        generalize bits.word (start / 64) &&& ~~~((1#64 <<< (start % 64)) - 1) = masked at hfirst
        split
        next hmasked =>
          obtain ⟨hge, hmem, hbefore⟩ := hfirst.found hmasked
          split
          next hfound =>
            exact (nextIn_eq_some hge hfound (of_decide_eq_true hmem) fun i hi hlt =>
              of_decide_eq_false (hbefore i hi hlt)).symm
          next hbeyond =>
            exact (nextIn_eq_none fun i hi hlt =>
              of_decide_eq_false (hbefore i hi (by omega))).symm
        next hzero =>
          have hempty : ∀ i, start ≤ i → i < (start / 64 + 1) * 64 → i ∉ bits.indices :=
            fun i hi hlt => of_decide_eq_false (hfirst.absent (not_not.mp hzero) i hi hlt)
          rw [ih ((start / 64 + 1) * 64) (by omega), nextIn_skip limit (by omega) hempty]

/-- The bit of an index in a list of words, clear behind them. -/
def bitAt (words : List (BitVec 64)) (i : Nat) : Bool := ((words[i / 64]?).getD 0).getLsbD (i % 64)

theorem bitAt_toList (bits : BitSet N) (i : Nat) :
    bitAt bits.words.toList i = decide (i ∈ bits.indices) := by
  rw [Bool.eq_iff_iff, decide_eq_true_eq, mem_indices, get_eq, bitAt, word,
    Vector.getElem?_toList]
  by_cases hlt : i < N * 64
  · simp [hlt]
  · have hout : N ≤ i / 64 := by omega
    simp [hlt, hout]

theorem bitAt_cons_of_lt {word : BitVec 64} {rest : List (BitVec 64)} (hi : i < 64) :
    bitAt (word :: rest) i = word.getLsbD i := by
  rw [bitAt, Nat.div_eq_of_lt hi, Nat.mod_eq_of_lt hi]
  rfl

theorem bitAt_cons_add (word : BitVec 64) (rest : List (BitVec 64)) (i : Nat) :
    bitAt (word :: rest) (64 + i) = bitAt rest i := by
  have hdiv : (64 + i) / 64 = i / 64 + 1 := by omega
  rw [bitAt, bitAt, hdiv, Nat.add_mod_left, List.getElem?_cons_succ]

/-- The scan stops at the first clear bit of the words. -/
theorem firstZero_go (limit : Nat) (words : List (BitVec 64)) (base : Nat) :
    ∃ first, firstZero.go limit words base = min (base + first) limit ∧
      bitAt words first = false ∧ ∀ i < first, bitAt words i = true := by
  induction words generalizing base with
  | nil => exact ⟨0, rfl, rfl, nofun⟩
  | cons word rest ih =>
      unfold firstZero.go
      split
      next hfull =>
        obtain ⟨first, hgo, hclear, hbefore⟩ := ih (base + 64)
        refine ⟨64 + first, ?_, ?_, fun i hi => ?_⟩
        · rw [hgo, Nat.add_assoc]
        · rw [bitAt_cons_add, hclear]
        · rcases Nat.lt_or_ge i 64 with hlow | hhigh
          · rw [bitAt_cons_of_lt hlow, hfull, BitVec.getLsbD_not, BitVec.ofNat_eq_ofNat,
              BitVec.getLsbD_zero, decide_eq_true hlow]
            rfl
          · obtain ⟨j, rfl⟩ := Nat.exists_eq_add_of_le hhigh
            rw [bitAt_cons_add, hbefore j (by omega)]
      next hgap =>
        have hne : ~~~word ≠ 0 := by
          intro hzero
          exact hgap (by rw [← BitVec.not_not (b := word), hzero])
        obtain ⟨hbit, hwidth⟩ := trailingZeros_getLsbD hne
        refine ⟨trailingOnes word, rfl, ?_, fun i hi => ?_⟩
        · rw [BitVec.getLsbD_not, Bool.and_eq_true, Bool.not_eq_true'] at hbit
          rw [trailingOnes, bitAt_cons_of_lt hwidth, hbit.2]
        · have hlow : i < 64 := Nat.lt_trans hi hwidth
          have hset := getLsbD_of_lt_trailingZeros hi
          rw [BitVec.getLsbD_not] at hset
          rw [bitAt_cons_of_lt hlow]
          simpa [hlow] using hset

theorem firstZero_eq (bits : BitSet N) (limit : Nat) :
    bits.firstZero limit = (nextGap bits.indices 0 limit).getD limit := by
  obtain ⟨first, hgo, hclear, hbefore⟩ := firstZero_go limit bits.words.toList 0
  rw [firstZero, hgo, Nat.zero_add]
  rw [bitAt_toList] at hclear
  have hset : ∀ i < first, i ∈ bits.indices := fun i hi => by
    simpa [bitAt_toList] using hbefore i hi
  rcases Nat.lt_or_ge first limit with hlt | hge
  · rw [nextGap_eq_some (Nat.zero_le _) hlt (of_decide_eq_false hclear) fun i _ hi => hset i hi]
    exact Nat.min_eq_left (Nat.le_of_lt hlt)
  · rw [nextGap_eq_none fun i _ hi => hset i (by omega)]
    exact Nat.min_eq_right hge

/-! ## The last index -/

theorem leadingZeros_getLsbD (hne : x ≠ 0) :
    leadingZeros x < 64 ∧ x.getLsbD (63 - leadingZeros x) = true ∧
      ∀ j, 63 - leadingZeros x < j → x.getLsbD j = false := by
  unfold leadingZeros
  cases hfind : (List.range 64).find? fun i => x.getLsbD (64 - 1 - i) with
  | none =>
      refine absurd (BitVec.eq_of_getLsbD_eq fun i hi => ?_) hne
      have hclear := List.find?_eq_none.mp hfind (63 - i) (List.mem_range.mpr (by omega))
      have hindex : 64 - 1 - (63 - i) = i := by omega
      simpa [hindex] using hclear
  | some i =>
      have hwidth := List.mem_range.mp (List.mem_of_find?_eq_some hfind)
      have hset := List.find?_some hfind
      refine ⟨hwidth, hset, fun j hj => ?_⟩
      change 63 - i < j at hj
      rcases Nat.lt_or_ge j 64 with hlow | hhigh
      · have hbefore := (List.find?_range_eq_some.mp hfind).2.2 (63 - j) (by omega)
        have hindex : 64 - 1 - (63 - j) = j := by omega
        simpa [hindex] using hbefore
      · exact BitVec.getLsbD_of_ge x j hhigh

/-- The last index of one word, whose bits are the indices below `limit`. -/
theorem lastIn_word (hk : k * 64 ≤ limit)
    (hx : ∀ j < 64, x.getLsbD j = (decide (k * 64 + j < limit) && decide (k * 64 + j ∈ set)))
    (hlimit : limit ≤ (k + 1) * 64) :
    lastIn set limit =
      if x ≠ 0 then some (k * 64 + (63 - leadingZeros x)) else lastIn set (k * 64) := by
  split
  next hne =>
    obtain ⟨hwidth, hbit, hafter⟩ := leadingZeros_getLsbD hne
    rw [hx _ (by omega), Bool.and_eq_true, decide_eq_true_eq, decide_eq_true_eq] at hbit
    refine lastIn_eq_some hbit.1 hbit.2 fun j hj hlt hmem => ?_
    have hclear := hafter (j - k * 64) (by omega)
    have hindex : k * 64 + (j - k * 64) = j := by omega
    rw [hx _ (by omega), hindex] at hclear
    simp [hlt, hmem] at hclear
  next hzero =>
    refine lastIn_skip hk fun j hge hlt hmem => ?_
    have hclear := hx (j - k * 64) (by omega)
    have hindex : k * 64 + (j - k * 64) = j := by omega
    rw [not_not.mp hzero, hindex] at hclear
    simp [hlt, hmem] at hclear

theorem lastOne_go (bits : BitSet N) (hk : k < N) :
    lastOne.go bits k = lastIn bits.indices ((k + 1) * 64) := by
  have hword : ∀ k < N, lastIn bits.indices ((k + 1) * 64) =
      if bits.word k ≠ 0 then some (k * 64 + (63 - leadingZeros (bits.word k)))
      else lastIn bits.indices (k * 64) := by
    intro k hk
    refine lastIn_word (by omega) (fun j hj => ?_) le_rfl
    have hindex : (k * 64 + j) % 64 = j := by omega
    have hbit := bits.getLsbD_word (i := k * 64 + j) hk (by omega)
    have hbelow : k * 64 + j < (k + 1) * 64 := by omega
    rw [hindex] at hbit
    rw [hbit, decide_eq_true hbelow, Bool.true_and]
  induction k with
  | zero =>
      rw [lastOne.go, hword 0 hk, Nat.zero_mul, Nat.zero_add]
      rfl
  | succ k ih => rw [lastOne.go, hword (k + 1) hk, ih (Nat.lt_of_succ_lt hk)]

theorem getLsbD_lowMask (hb : b < 64) :
    ((1#64 <<< b) - 1).getLsbD j = decide (j < b) := by
  have hpow : 2 ^ b < 2 ^ 64 := Nat.pow_lt_pow_right (by decide) hb
  have hpos : 0 < 2 ^ b := Nat.two_pow_pos b
  have hsub : ((1#64 <<< b) - 1).toNat = 2 ^ b - 1 := by
    rw [BitVec.toNat_sub, BitVec.toNat_shiftLeft, BitVec.toNat_ofNat, Nat.shiftLeft_eq]
    simp only [BitVec.ofNat_eq_ofNat, BitVec.toNat_ofNat]
    omega
  rw [BitVec.getLsbD, hsub, Nat.testBit_two_pow_sub_one]

theorem lastOne_eq (bits : BitSet N) (limit : Nat) :
    bits.lastOne limit = lastIn bits.indices limit := by
  have hclamp : lastIn bits.indices limit = lastIn bits.indices (min limit (N * 64)) := by
    refine lastIn_skip (Nat.min_le_left _ _) fun j hge hlt => ?_
    rw [mem_indices, bits.get_of_le (by omega)]
    exact Bool.false_ne_true
  rw [hclamp]
  unfold lastOne
  dsimp only
  generalize hlimit : min limit (N * 64) = clamped
  split
  next hzero =>
    rw [hzero]
    exact (greatest_eq_none fun i hi =>
      absurd (Finset.mem_range.mp (Finset.mem_inter.mp hi).1) (Nat.not_lt_zero i)).symm
  next hpos =>
  have hword : (clamped - 1) / 64 < N := by omega
  split
  next hpartial =>
    -- the last word counts up to `clamped` only
    have hmasked := @lastIn_word ((clamped - 1) / 64) clamped (bits.word ((clamped - 1) / 64) &&&
      ((1#64 <<< ((clamped - 1) % 64 + 1)) - 1)) bits.indices (by omega) (fun j hj => by
        have hindex : ((clamped - 1) / 64 * 64 + j) % 64 = j := by omega
        have hbit := bits.getLsbD_word (i := (clamped - 1) / 64 * 64 + j) hword (by omega)
        have hbelow : j < (clamped - 1) % 64 + 1 ↔ (clamped - 1) / 64 * 64 + j < clamped := by
          omega
        rw [hindex] at hbit
        rw [BitVec.getLsbD_and, getLsbD_lowMask hpartial, hbit, Bool.and_comm,
          decide_eq_decide.mpr hbelow]) (by omega)
    rw [hmasked]
    split
    next => rfl
    next =>
      cases hk : (clamped - 1) / 64 with
      | zero =>
          rw [Nat.zero_mul]
          exact (greatest_eq_none fun i hi =>
            absurd (Finset.mem_range.mp (Finset.mem_inter.mp hi).1) (Nat.not_lt_zero i)).symm
      | succ below => exact lastOne_go bits (by omega)
  next hwhole =>
    have hstop : ((clamped - 1) / 64 + 1) * 64 = clamped := by omega
    rw [lastOne_go bits hword, hstop]

/-! ## Counting -/

/-- The set bits of one word, whose bits are the indices in a part of its stretch. -/
theorem countOnes_eq (hstart : k * 64 ≤ start) (hstop : stop ≤ (k + 1) * 64)
    (hx : ∀ j < 64, x.getLsbD j =
      (decide (start ≤ k * 64 + j ∧ k * 64 + j < stop) && decide (k * 64 + j ∈ set))) :
    countOnes x = countIn set start stop := by
  have hfilter : countOnes x = ((Finset.range 64).filter fun j => x.getLsbD j).card := by
    unfold countOnes
    refine congrArg List.length (List.filter_congr fun j _ => ?_)
    exact Bool.decide_eq_true.symm
  rw [hfilter, countIn]
  refine Finset.card_nbij' (fun j => k * 64 + j) (fun i => i - k * 64) ?_ ?_ ?_ ?_
  · intro j hj
    obtain ⟨hrange, hbit⟩ := Finset.mem_filter.mp hj
    rw [hx j (Finset.mem_range.mp hrange), Bool.and_eq_true, decide_eq_true_eq,
      decide_eq_true_eq] at hbit
    exact Finset.mem_inter.mpr ⟨Finset.mem_Ico.mpr hbit.1, hbit.2⟩
  · intro i hi
    obtain ⟨hrange, hmem⟩ := Finset.mem_inter.mp hi
    have hbounds := Finset.mem_Ico.mp hrange
    have hindex : k * 64 + (i - k * 64) = i := by omega
    have hlow : i - k * 64 < 64 := by omega
    refine Finset.mem_filter.mpr ⟨Finset.mem_range.mpr hlow, ?_⟩
    rw [hx _ hlow, hindex, decide_eq_true hbounds, decide_eq_true hmem]
    rfl
  · exact fun j _ => Nat.add_sub_cancel_left (k * 64) j
  · intro i hi
    have hbounds := Finset.mem_Ico.mp (Finset.mem_inter.mp hi).1
    exact Nat.add_sub_cancel' (Nat.le_trans hstart hbounds.1)

/-- The mask `!0 << b`. -/
theorem getLsbD_startMask (b : Nat) (hj : j < 64) :
    (~~~0#64 <<< b).getLsbD j = decide (b ≤ j) := by
  rw [BitVec.getLsbD_shiftLeft, BitVec.getLsbD_not, BitVec.getLsbD_zero, decide_eq_true hj]
  have hlow : j - b < 64 := by omega
  rw [decide_eq_true hlow, Bool.true_and, Bool.not_false, Bool.true_and, Bool.and_true,
    ← decide_not]
  exact decide_eq_decide.mpr Nat.not_lt

/-- The mask `!0 >> (63 - b)`. -/
theorem getLsbD_endMask (hb : b < 64) :
    (~~~0#64 >>> (63 - b)).getLsbD j = decide (j ≤ b) := by
  rw [BitVec.getLsbD_ushiftRight, BitVec.getLsbD_not, BitVec.getLsbD_zero, Bool.not_false,
    Bool.and_true]
  exact decide_eq_decide.mpr (by omega)

/-- The bits of a masked word. -/
theorem countOnes_masked {mask : BitVec 64} (hk : k < N) (hstart : k * 64 ≤ start)
    (hstop : stop ≤ (k + 1) * 64)
    (hmask : ∀ j < 64, mask.getLsbD j = decide (start ≤ k * 64 + j ∧ k * 64 + j < stop)) :
    countOnes (bits.word k &&& mask) = countIn bits.indices start stop := by
  refine countOnes_eq hstart hstop fun j hj => ?_
  have hindex : (k * 64 + j) % 64 = j := by omega
  have hbit := bits.getLsbD_word (i := k * 64 + j) hk (by omega)
  rw [hindex] at hbit
  rw [BitVec.getLsbD_and, hbit, hmask j hj, Bool.and_comm]

/-- Whole words, one by one. -/
theorem countOnes_foldl (bits : BitSet N) (first words count : Nat) (hN : first + words ≤ N) :
    (List.range' first words).foldl (fun count i => count + countOnes (bits.word i)) count =
      count + countIn bits.indices (first * 64) ((first + words) * 64) := by
  induction words generalizing first count with
  | zero => rw [countIn_eq_zero (by omega)]; rfl
  | succ words ih =>
      have hword : countOnes (bits.word first) =
          countIn bits.indices (first * 64) ((first + 1) * 64) := by
        refine countOnes_eq le_rfl le_rfl fun j hj => ?_
        have hindex : (first * 64 + j) % 64 = j := by omega
        have hbit := bits.getLsbD_word (k := first) (i := first * 64 + j) (by omega) (by omega)
        have hin : first * 64 ≤ first * 64 + j ∧ first * 64 + j < (first + 1) * 64 := by omega
        rw [hindex] at hbit
        rw [hbit, decide_eq_true hin, Bool.true_and]
      have hsum : first + 1 + words = first + (words + 1) := by omega
      rw [List.range'_succ, List.foldl_cons, ih (first + 1) _ (by omega), hword, Nat.add_assoc,
        hsum, ← countIn_append bits.indices (by omega) (by omega)]

theorem countOnesBetween_eq (bits : BitSet N) (start stop : Nat) :
    bits.countOnesBetween start stop = countIn bits.indices start stop := by
  have hclamp : countIn bits.indices start stop =
      countIn bits.indices start (min stop (N * 64)) := by
    unfold countIn
    congr 1
    ext i
    simp only [Finset.mem_inter, Finset.mem_Ico, mem_indices]
    have hin : bits.get i = true → i < N * 64 := fun hget => by
      by_contra hout
      rw [bits.get_of_le (Nat.not_lt.mp hout)] at hget
      cases hget
    constructor
    · exact fun ⟨⟨hstart, hstop⟩, hget⟩ => ⟨⟨hstart, lt_min hstop (hin hget)⟩, hget⟩
    · exact fun ⟨⟨hstart, hstop⟩, hget⟩ => ⟨⟨hstart, lt_of_lt_of_le hstop (min_le_left _ _)⟩, hget⟩
  rw [hclamp]
  unfold countOnesBetween
  dsimp only
  have hN : min stop (N * 64) ≤ N * 64 := Nat.min_le_right _ _
  generalize min stop (N * 64) = stop at hN
  split
  next hempty => exact (countIn_eq_zero hempty).symm
  next hlt =>
  have hmodStop : (stop - 1) % 64 < 64 := Nat.mod_lt _ (by decide)
  have hlast : (stop - 1) / 64 < N := by omega
  split
  next hsame =>
    refine countOnes_masked (by omega) (by omega) (by omega) fun j hj => ?_
    rw [BitVec.getLsbD_and, getLsbD_startMask _ hj, getLsbD_endMask hmodStop, Bool.decide_and]
    exact congrArg₂ _ (decide_eq_decide.mpr (by omega)) (decide_eq_decide.mpr (by omega))
  next hdiff =>
    have hhead : countOnes (bits.word (start / 64) &&& (~~~0#64 <<< (start % 64))) =
        countIn bits.indices start ((start / 64 + 1) * 64) := by
      refine countOnes_masked (by omega) (by omega) le_rfl fun j hj => ?_
      rw [getLsbD_startMask _ hj]
      exact decide_eq_decide.mpr (by omega)
    have htail : countOnes (bits.word ((stop - 1) / 64) &&&
        (~~~0#64 >>> (63 - (stop - 1) % 64))) =
          countIn bits.indices ((stop - 1) / 64 * 64) stop := by
      refine countOnes_masked hlast le_rfl (by omega) fun j hj => ?_
      rw [getLsbD_endMask hmodStop]
      exact decide_eq_decide.mpr (by omega)
    have hmiddle : start / 64 + 1 + ((stop - 1) / 64 - (start / 64 + 1)) = (stop - 1) / 64 := by
      omega
    rw [hhead, htail, countOnes_foldl bits _ _ _ (by omega), hmiddle,
      ← countIn_append bits.indices (by omega) (by omega),
      ← countIn_append bits.indices (by omega) (by omega)]

/-! ## Runs and masks -/

theorem nextRange_eq (bits : BitSet N) (start limit : Nat) :
    bits.nextRange start limit = (nextRun bits.indices start limit).map fun run =>
      (run.1 % 2 ^ 16, run.2 % 2 ^ 16) := by
  unfold nextRange nextRun
  rw [nextOne_eq]
  cases nextIn bits.indices start limit with
  | none => rfl
  | some first =>
      dsimp only [Option.map_some]
      rw [nextZero_eq]

/-- The first run of a range ends where a `u16` can say so: the range ends there, it holds no
index, or an index and a gap behind it do. -/
def RunFits (set : Finset Nat) (start limit : Nat) : Prop :=
  limit < 2 ^ 16 ∨ (∀ i ∈ set, start ≤ i → limit ≤ i) ∨
    ∃ i ∈ set, ∃ gap, gap ∉ set ∧ start ≤ i ∧ i < gap ∧ gap < 2 ^ 16

/-- The end of the first run. -/
theorem runFits_iff {first : Nat} (hfirst : nextIn set start limit = some first) :
    RunFits set start limit ↔ (nextGap set first limit).getD limit < 2 ^ 16 := by
  obtain ⟨hstart, hlimit, hmem⟩ := nextIn_spec hfirst
  constructor
  · rintro (hsmall | hempty | ⟨i, hi, gap, hgap, hle, hlt, hfits⟩)
    · cases hstop : nextGap set first limit with
      | none => exact hsmall
      | some stop => exact Nat.lt_trans (nextGap_spec hstop).2.1 hsmall
    · exact absurd (hempty first hmem hstart) (Nat.not_le.mpr hlimit)
    · rcases Nat.lt_or_ge gap limit with hin | hout
      · have hbefore := nextIn_le hfirst hle (Nat.lt_trans hlt hin) hi
        cases hstop : nextGap set first limit with
        | none => exact absurd (mem_of_nextGap hstop (by omega) hin) hgap
        | some stop => exact Nat.lt_of_le_of_lt (nextGap_le hstop (by omega) hin hgap) hfits
      · cases hstop : nextGap set first limit with
        | none => exact Nat.lt_of_le_of_lt hout hfits
        | some stop => exact Nat.lt_trans (nextGap_spec hstop).2.1 (Nat.lt_of_le_of_lt hout hfits)
  · intro hfits
    cases hstop : nextGap set first limit with
    | none =>
        rw [hstop] at hfits
        exact .inl hfits
    | some stop =>
        rw [hstop] at hfits
        obtain ⟨hle, -, hgap⟩ := nextGap_spec hstop
        have hne : first ≠ stop := fun heq => hgap (heq ▸ hmem)
        exact .inr (.inr ⟨first, hmem, stop, hgap, hstart, by omega, hfits⟩)

theorem nextRange_eq_iff (bits : BitSet N) (start limit : Nat) :
    bits.nextRange start limit = nextRun bits.indices start limit ↔
      RunFits bits.indices start limit := by
  rw [nextRange_eq, nextRun]
  cases hfirst : nextIn bits.indices start limit with
  | none =>
      refine iff_of_true rfl (.inr (.inl fun i hi hstart => ?_))
      by_contra hlimit
      exact not_mem_of_least hfirst i
        (Finset.mem_inter.mpr ⟨Finset.mem_Ico.mpr ⟨hstart, Nat.not_le.mp hlimit⟩, hi⟩)
  | some first =>
      rw [runFits_iff hfirst]
      simp only [Option.map_some, Option.some.injEq, Prod.mk.injEq]
      obtain ⟨-, hlimit, -⟩ := nextIn_spec hfirst
      have hle : first ≤ (nextGap bits.indices first limit).getD limit := by
        cases hstop : nextGap bits.indices first limit with
        | none => exact Nat.le_of_lt hlimit
        | some stop => exact (nextGap_spec hstop).1
      omega

theorem sackMaskChecked_of_lt (bits : BitSet N) (h : baseIndex + 1 < 2 ^ 64) :
    bits.sackMaskChecked baseIndex = ⟨bits.sackMask baseIndex, false⟩ := by
  unfold sackMaskChecked
  rw [Checked.bind_of_fits (Checked.unsigned_of_lt h)]
  rfl

theorem sackMaskChecked_overflowed (bits : BitSet N) (h : 2 ^ 64 ≤ baseIndex + 1) :
    (bits.sackMaskChecked baseIndex).overflowed = true := by
  unfold sackMaskChecked
  rw [Checked.overflowed_bind, Checked.unsigned, decide_eq_true h]
  rfl

/-! ## Bit sets built by operations -/

inductive IndexOp where
  | set (index : Nat)
  | unset (index : Nat)
  | clear
  | fill

/-- The operation on the words. -/
def IndexOp.run (bits : BitSet N) : IndexOp → BitSet N
  | .set index => (bits.set index).2
  | .unset index => (bits.unset index).2
  | .clear => bits.clear
  | .fill => bits.fill

/-- The operation on the set of indices, `N` words being its capacity. -/
def IndexOp.runOn (N : Nat) (set : Finset Nat) : IndexOp → Finset Nat
  | .set index => if index < N * 64 then insert index set else set
  | .unset index => set.erase index
  | .clear => ∅
  | .fill => Finset.range (N * 64)

theorem indices_fill (bits : BitSet N) : bits.fill.indices = Finset.range (N * 64) := by
  ext i
  rw [mem_indices, Finset.mem_range, get_eq]
  by_cases hlt : i < N * 64
  · have hword : i / 64 < N := by omega
    have hbit : i % 64 < 64 := Nat.mod_lt _ (by decide)
    have hfull : bits.fill.word (i / 64) = ~~~0#64 := by
      simp [word, fill, hword]
    rw [hfull, BitVec.getLsbD_not, BitVec.getLsbD_zero, decide_eq_true hlt, decide_eq_true hbit]
    simp [hlt]
  · simp [hlt]

theorem indices_run (bits : BitSet N) (operation : IndexOp) :
    (operation.run bits).indices = operation.runOn N bits.indices := by
  cases operation with
  | set index => exact bits.indices_set index
  | unset index => exact bits.indices_unset index
  | clear => exact indices_new
  | fill => exact bits.indices_fill

theorem indices_foldl (operations : List IndexOp) (bits : BitSet N) :
    (operations.foldl IndexOp.run bits).indices =
      operations.foldl (IndexOp.runOn N) bits.indices := by
  induction operations generalizing bits with
  | nil => rfl
  | cons operation rest ih => rw [List.foldl_cons, List.foldl_cons, ih, indices_run]

/-- Every query of a bit set answers what the query on the set of its indices does. -/
structure Answers (bits : BitSet N) (set : Finset Nat) (start limit baseIndex : Nat) : Prop where
  firstZero : bits.firstZero limit = (nextGap set 0 limit).getD limit
  nextZero : bits.nextZero start limit = nextGap set start limit
  nextOne : bits.nextOne start limit = nextIn set start limit
  nextRange : bits.nextRange start limit = nextRun set start limit
  lastOne : bits.lastOne limit = lastIn set limit
  countOnesBetween : bits.countOnesBetween start limit = countIn set start limit
  sackMask : (bits.sackMaskChecked baseIndex).overflowed = false ∧
    ∀ j < 64, (bits.sackMaskChecked baseIndex).value.getLsbD j = decide (baseIndex + 1 + j ∈ set)

/-- The queries are exact but for a run that ends beyond a `u16`, which `next_range` casts its
ends to, and for the mask after the last `usize`. -/
theorem answers_iff (operations : List IndexOp) (start limit baseIndex : Nat) :
    let bits := operations.foldl IndexOp.run (new : BitSet N)
    let set := operations.foldl (IndexOp.runOn N) ∅
    Answers bits set start limit baseIndex ↔ RunFits set start limit ∧ baseIndex + 1 < 2 ^ 64 := by
  intro bits set
  have hset : bits.indices = set := by
    rw [indices_foldl, indices_new]
  rw [← hset, ← nextRange_eq_iff]
  constructor
  · refine fun h => ⟨h.nextRange, ?_⟩
    by_contra hover
    have hflag := bits.sackMaskChecked_overflowed (Nat.not_lt.mp hover)
    rw [h.sackMask.1] at hflag
    cases hflag
  · rintro ⟨hrange, hbase⟩
    refine ⟨bits.firstZero_eq limit, bits.nextZero_eq start limit, bits.nextOne_eq start limit,
      hrange, bits.lastOne_eq limit, bits.countOnesBetween_eq start limit, ?_⟩
    rw [bits.sackMaskChecked_of_lt hbase]
    refine ⟨rfl, fun j hj => ?_⟩
    rw [getLsbD_sackMask bits baseIndex j hj, Bool.eq_iff_iff, decide_eq_true_eq, mem_indices]

theorem runOn_sets (hcount : count ≤ N * 64) :
    ((List.range count).map IndexOp.set).foldl (IndexOp.runOn N) ∅ = Finset.range count := by
  induction count with
  | zero => rfl
  | succ count ih =>
      have hlt : count < N * 64 := hcount
      rw [List.range_succ, List.map_append, List.foldl_append, ih (Nat.le_of_lt hlt)]
      simp only [List.map_cons, List.map_nil, List.foldl_cons, List.foldl_nil, IndexOp.runOn, hlt,
        if_true, Finset.range_add_one]

/-- With all bits of 1024 words set, the run of the whole range comes out empty. -/
theorem nextRange_truncates :
    let operations := (List.range 65536).map IndexOp.set
    let bits := operations.foldl IndexOp.run (new : BitSet 1024)
    let set := operations.foldl (IndexOp.runOn 1024) ∅
    bits.nextRange 0 65536 = some (0, 0) ∧ nextRun set 0 65536 = some (0, 65536) ∧
      ¬ Answers bits set 0 65536 0 := by
  intro operations bits set
  have hset : set = Finset.range 65536 := runOn_sets le_rfl
  have hindices : bits.indices = set := by rw [indices_foldl, indices_new]
  have hfirst : nextIn set 0 65536 = some 0 := by
    rw [hset]
    exact nextIn_eq_some le_rfl (by decide) (Finset.mem_range.mpr (by decide)) fun j _ hlt =>
      absurd hlt (Nat.not_lt_zero j)
  have hgap : nextGap set 0 65536 = none := by
    rw [hset]
    exact nextGap_eq_none fun j _ hlt => Finset.mem_range.mpr hlt
  have hrun : nextRun set 0 65536 = some (0, 65536) := by
    rw [nextRun, hfirst, Option.map_some, hgap]
    rfl
  have hrange : bits.nextRange 0 65536 = some (0, 0) := by
    rw [nextRange_eq, hindices, hrun]
    rfl
  refine ⟨hrange, hrun, fun h => ?_⟩
  have hsame := h.nextRange
  rw [hrange, hrun] at hsame
  cases hsame

end BitSet

end MerkleTox.Sequenced
