import Mathlib.Data.Nat.Size
import MerkleTox.Core.Primitives

/-! # Proof-of-work challenges

A peer that is sent a large sketch challenges the sender with a nonce and a difficulty, and
reads the sketch once a solution comes back: a number whose hash with the nonce has at least as
many leading zero bits. The search for it tries the numbers of 64 bits in their order.
-/

namespace MerkleTox.Core

open Library Proto

structure PowNonce where
  bytes : Bytes32
  deriving DecidableEq, Repr

/-- `u8::leading_zeros`. -/
def byteLeadingZeros (byte : UInt8) : Nat := 8 - byte.toNat.size

/-- The loop over the bytes of a hash, up to the first that is not zero. -/
def leadingZeros : Bytes → Nat
  | [] => 0
  | byte :: rest => if byte = 0 then 8 + leadingZeros rest else byteLeadingZeros byte

/-- `blake3::Hasher`: the hash of the bytes that were fed to it. -/
class PowHash where
  hash : Bytes → Bytes32

section Search

variable [PowHash]

/-- The leading zeros of a solution, fed as its little-endian bytes. -/
def solutionZeros (nonce : PowNonce) (solution : BitVec 64) : Nat :=
  leadingZeros (Bytes32.toBytes
    (PowHash.hash (Bytes32.toBytes nonce.bytes ++ (toBe 8 solution.toNat).reverse)))

/-- The rounds of the search from a candidate on; there may be no round that ends it. -/
def solveFrom (nonce : PowNonce) (difficulty : Nat) : Nat → BitVec 64 → Option (BitVec 64)
  | 0, _ => none
  | rounds + 1, solution =>
      if difficulty ≤ solutionZeros nonce solution then some solution
      else solveFrom nonce difficulty rounds (solution + 1)

def solveChallenge (nonce : PowNonce) (difficulty : Nat) (rounds : Nat) : Option (BitVec 64) :=
  solveFrom nonce difficulty rounds 0

structure ReconPowChallenge where
  conversationId : ConversationId
  nonce : PowNonce
  difficulty : BitVec 32

structure ReconPowSolution where
  conversationId : ConversationId
  nonce : PowNonce
  solution : BitVec 64

/-- The handler of a challenge: every difficulty is searched for. -/
def handleChallenge (senderPk : PhysicalDevicePk) (challenge : ReconPowChallenge) (rounds : Nat) :
    Option (PhysicalDevicePk × ReconPowSolution) :=
  (solveChallenge challenge.nonce challenge.difficulty.toNat rounds).map fun solution =>
    (senderPk, ⟨challenge.conversationId, challenge.nonce, solution⟩)

/-- The side that poses challenges. -/
structure Challenger where
  pendingChallenges : AssocMap PowNonce Int
  effectiveDifficulty : Nat

/-- `verify_solution`. -/
def Challenger.verifySolution (challenger : Challenger) (nonce : PowNonce)
    (solution : BitVec 64) (now : Int) : Bool × Challenger :=
  match challenger.pendingChallenges.get nonce with
  | none => (false, challenger)
  | some expiry =>
      let closed := { challenger with
        pendingChallenges := challenger.pendingChallenges.erase nonce }
      if expiry < now then (false, closed)
      else if challenger.effectiveDifficulty ≤ solutionZeros nonce solution then (true, closed)
      else (false, challenger)

end Search

/-! ## The search space -/

section Answers

theorem byteLeadingZeros_le (byte : UInt8) : byteLeadingZeros byte ≤ 8 := Nat.sub_le _ _

theorem byteLeadingZeros_lt {byte : UInt8} (hbyte : byte ≠ 0) : byteLeadingZeros byte < 8 := by
  have hpos : 0 < byte.toNat := Nat.pos_of_ne_zero fun h => hbyte (UInt8.toNat_inj.mp h)
  have hsize := Nat.size_pos.mpr hpos
  rw [byteLeadingZeros]
  omega

theorem leadingZeros_singleton (byte : UInt8) : leadingZeros [byte] = byteLeadingZeros byte := by
  rw [leadingZeros]
  split
  next hzero =>
    subst hzero
    rfl
  next => rfl

/-- A last byte counts only behind zeros. -/
theorem leadingZeros_append_singleton (bytes : Bytes) (last : UInt8) :
    leadingZeros (bytes ++ [last]) =
      if leadingZeros bytes = 8 * bytes.length then 8 * bytes.length + byteLeadingZeros last
      else leadingZeros bytes := by
  induction bytes with
  | nil => simp [leadingZeros_singleton, leadingZeros]
  | cons byte rest ih =>
      rw [List.cons_append, leadingZeros, leadingZeros, List.length_cons, ih]
      by_cases hzero : byte = 0
      · rw [if_pos hzero, if_pos hzero]
        split <;> split <;> omega
      · have hlt := byteLeadingZeros_lt hzero
        rw [if_neg hzero, if_neg hzero, if_neg (by omega)]

/-- The size of a number of several bytes. -/
theorem size_div_256 {n : Nat} (hn : n / 256 ≠ 0) : n.size = (n / 256).size + 8 := by
  have hshift : ∀ m, m < n.size ↔ m < (n / 256).size + 8 := by
    intro m
    rw [Nat.lt_size]
    rcases Nat.lt_or_ge m 8 with hlow | hhigh
    · have hpow : 2 ^ m ≤ 2 ^ 8 := Nat.pow_le_pow_right (by norm_num) hlow.le
      exact iff_of_true (by omega) (by omega)
    · obtain ⟨k, rfl⟩ := Nat.exists_eq_add_of_le hhigh
      rw [Nat.add_comm 8 k, Nat.add_lt_add_iff_right, Nat.lt_size, Nat.pow_add,
        Nat.le_div_iff_mul_le (by norm_num)]
  refine le_antisymm (Nat.le_of_not_lt fun h => ?_) (Nat.le_of_not_lt fun h => ?_)
  · exact absurd ((hshift _).mp h) (Nat.lt_irrefl _)
  · exact absurd ((hshift _).mpr h) (Nat.lt_irrefl _)

/-- The leading zeros of a big-endian number are the bits above its highest one. -/
theorem leadingZeros_toBe (width : Nat) {n : Nat} (hn : n < 256 ^ width) :
    leadingZeros (toBe width n) = 8 * width - n.size := by
  induction width generalizing n with
  | zero =>
      obtain rfl : n = 0 := by simpa using hn
      rfl
  | succ width ih =>
      have hdiv : n / 256 < 256 ^ width := by
        rw [Nat.pow_succ] at hn
        exact Nat.div_lt_of_lt_mul (by rwa [Nat.mul_comm])
      have hlast : byteLeadingZeros (UInt8.ofNat (n % 256)) = 8 - (n % 256).size := by
        rw [byteLeadingZeros, UInt8.toNat_ofNat_of_lt' (Nat.mod_lt _ (by norm_num))]
      rw [toBe, leadingZeros_append_singleton, length_toBe, ih hdiv, hlast]
      by_cases hsmall : n / 256 = 0
      · have hmod : n % 256 = n := Nat.mod_eq_of_lt (by omega)
        have hsize : n.size ≤ 8 := Nat.size_le.mpr (by omega)
        rw [hsmall, Nat.size_zero, hmod, Nat.sub_zero, if_pos rfl]
        omega
      · have hsize := size_div_256 hsmall
        have hpos := Nat.size_pos.mpr (Nat.pos_of_ne_zero hsmall)
        have hle : (n / 256).size ≤ 8 * width := by
          rw [Nat.size_le, Nat.pow_mul]
          exact hdiv
        rw [if_neg (by omega)]
        omega

theorem leadingZeros_le (bytes : Bytes) : leadingZeros bytes ≤ 8 * bytes.length := by
  induction bytes with
  | nil => exact Nat.le_refl 0
  | cons byte rest ih =>
      have hbyte := byteLeadingZeros_le byte
      rw [leadingZeros, List.length_cons]
      split <;> omega

variable [PowHash] {nonce : PowNonce} {difficulty rounds : Nat} {first solution : BitVec 64}

/-- A hash has 256 bits. -/
theorem solutionZeros_le (nonce : PowNonce) (solution : BitVec 64) :
    solutionZeros nonce solution ≤ 256 := by
  have hlength := leadingZeros_le (Bytes32.toBytes
    (PowHash.hash (Bytes32.toBytes nonce.bytes ++ (toBe 8 solution.toNat).reverse)))
  rwa [Bytes32.toBytes, length_toBe] at hlength

theorem le_of_solveFrom (h : solveFrom nonce difficulty rounds first = some solution) :
    difficulty ≤ solutionZeros nonce solution := by
  induction rounds generalizing first with
  | zero => cases h
  | succ rounds ih =>
      rw [solveFrom] at h
      split at h
      next hreached =>
        cases h
        exact hreached
      next => exact ih h

/-- The search comes to every number of 64 bits. -/
theorem isSome_solveFrom {distance : Nat}
    (h : difficulty ≤ solutionZeros nonce (first + BitVec.ofNat 64 distance)) :
    (solveFrom nonce difficulty (distance + 1) first).isSome := by
  induction distance generalizing first with
  | zero =>
      rw [BitVec.add_zero] at h
      rw [solveFrom, if_pos h]
      rfl
  | succ distance ih =>
      rw [solveFrom]
      split
      · rfl
      · have hnext : first + 1 + BitVec.ofNat 64 distance =
            first + BitVec.ofNat 64 (distance + 1) := by
          rw [BitVec.ofNat_add, BitVec.add_assoc]
          exact congrArg (first + ·) (BitVec.add_comm _ _)
        exact ih (hnext ▸ h)

/-- The search ends if and only if some number of 64 bits is a solution. -/
theorem solveChallenge_ends_iff :
    (∃ rounds, (solveChallenge nonce difficulty rounds).isSome) ↔
      ∃ solution, difficulty ≤ solutionZeros nonce solution := by
  constructor
  · rintro ⟨rounds, hsome⟩
    obtain ⟨solution, hsolved⟩ := Option.isSome_iff_exists.mp hsome
    exact ⟨solution, le_of_solveFrom hsolved⟩
  · rintro ⟨solution, hreached⟩
    have hstart : (0 : BitVec 64) + BitVec.ofNat 64 solution.toNat = solution := by
      rw [BitVec.ofNat_toNat, BitVec.setWidth_eq]
      exact BitVec.zero_add solution
    refine ⟨solution.toNat + 1, ?_⟩
    rw [solveChallenge]
    refine isSome_solveFrom ?_
    rwa [hstart]

/-- The answer to a challenge is accepted where it was posed, in time and at its difficulty. -/
theorem verifySolution_of_solveChallenge {challenger : Challenger} {expiry now : Int}
    (hposed : challenger.pendingChallenges.get nonce = some expiry) (htime : now ≤ expiry)
    (hsolved : solveChallenge nonce challenger.effectiveDifficulty rounds = some solution) :
    (challenger.verifySolution nonce solution now).1 = true := by
  have hreached := le_of_solveFrom hsolved
  simp [Challenger.verifySolution, hposed, hreached, not_lt.mpr htime]

/-- With a hash that takes every number of leading zeros for every nonce, a challenge has a
solution and is answered if and only if it asks for at most 256. -/
theorem challenge_answered_iff
    (honto : ∀ nonce : PowNonce, ∀ zeros ≤ 256, ∃ solution, solutionZeros nonce solution = zeros)
    (senderPk : PhysicalDevicePk) (challenge : ReconPowChallenge) :
    ((∃ solution, challenge.difficulty.toNat ≤ solutionZeros challenge.nonce solution) ∧
        ∃ rounds, (handleChallenge senderPk challenge rounds).isSome) ↔
      challenge.difficulty.toNat ≤ 256 := by
  have hanswered : (∃ rounds, (handleChallenge senderPk challenge rounds).isSome) ↔
      ∃ solution, challenge.difficulty.toNat ≤ solutionZeros challenge.nonce solution := by
    rw [← solveChallenge_ends_iff]
    exact exists_congr fun rounds => by rw [handleChallenge, Option.isSome_map]
  rw [hanswered, and_self]
  constructor
  · rintro ⟨solution, hreached⟩
    exact hreached.trans (solutionZeros_le challenge.nonce solution)
  · intro hle
    obtain ⟨solution, hzeros⟩ := honto challenge.nonce _ hle
    exact ⟨solution, hzeros.ge⟩

end Answers

namespace Reference

/-- A hash with as many leading zeros as a number says. -/
def zerosThenOne (zeros : Nat) : Bytes32 :=
  if zeros < 256 then BitVec.twoPow 256 (255 - zeros) else 0

/-- The solution itself tells the number of zeros. -/
instance countingHash : PowHash where
  hash data := zerosThenOne (fromBe (data.drop 32).reverse)

theorem leadingZeros_zerosThenOne {zeros : Nat} (hzeros : zeros ≤ 256) :
    leadingZeros (Bytes32.toBytes (zerosThenOne zeros)) = zeros := by
  rw [Bytes32.toBytes, leadingZeros_toBe 32 (zerosThenOne zeros).isLt, zerosThenOne]
  split
  next hlt =>
    rw [BitVec.toNat_twoPow_of_lt (by omega), Nat.size_pow]
    omega
  next =>
    obtain rfl : zeros = 256 := by omega
    rfl

theorem countingHash_onto (nonce : PowNonce) (zeros : Nat) (hzeros : zeros ≤ 256) :
    ∃ solution, solutionZeros nonce solution = zeros := by
  have hsmall : zeros < 2 ^ 64 := hzeros.trans_lt (by norm_num)
  refine ⟨BitVec.ofNat 64 zeros, ?_⟩
  have hlength : (Bytes32.toBytes nonce.bytes).length = 32 := length_toBe 32 _
  have hhash : ∀ data, PowHash.hash data = zerosThenOne (fromBe (data.drop 32).reverse) :=
    fun _ => rfl
  rw [solutionZeros, hhash, List.drop_left' hlength, List.reverse_reverse,
    BitVec.toNat_ofNat, Nat.mod_eq_of_lt hsmall, fromBe_toBe 8 hsmall]
  exact leadingZeros_zerosThenOne hzeros

theorem challenge_answered_twelve :
    ((∃ solution, 12 ≤ solutionZeros ⟨3⟩ solution) ∧
        ∃ rounds, (handleChallenge ⟨1⟩ ⟨⟨2⟩, ⟨3⟩, 12⟩ rounds).isSome) ↔ 12 ≤ 256 :=
  challenge_answered_iff countingHash_onto ⟨1⟩ ⟨⟨2⟩, ⟨3⟩, 12⟩

/-- A peer may ask for 257 leading zeros, which the search never finds. -/
theorem challenge_never_answered :
    (∀ nonce : PowNonce, ∀ zeros ≤ 256, ∃ solution, solutionZeros nonce solution = zeros) ∧
      (∀ solution, solutionZeros ⟨3⟩ solution < 257) ∧
      ∀ rounds, handleChallenge ⟨1⟩ ⟨⟨2⟩, ⟨3⟩, 257⟩ rounds = none := by
  refine ⟨countingHash_onto, fun solution => Nat.lt_succ_of_le (solutionZeros_le _ _),
    fun rounds => ?_⟩
  rw [handleChallenge, Option.map_eq_none_iff, Option.eq_none_iff_forall_not_mem]
  intro solution hsolved
  exact absurd ((le_of_solveFrom hsolved).trans (solutionZeros_le _ _)) (by decide)

end Reference

end MerkleTox.Core
