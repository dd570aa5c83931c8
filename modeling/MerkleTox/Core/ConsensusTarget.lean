import Mathlib.Data.List.Dedup
import MerkleTox.Core.Clock

/-! # The target of the consensus clock

The votes of a run are one for each identity that reported, from its last report. The loop finds
the middle of the weight, so a majority of the identities bounds the target. Only the sum of two
middle offsets can leave its type.
-/

namespace MerkleTox.Core

open Library

namespace NetworkClock

/-! ## The loop -/

/-- The loop ends in the middle of the weight: within a vote, or between two that it averages. -/
inductive Picks (votes : List Sample) (picked : Checked Int) : Prop
  | within {front back : List Sample} {vote : Sample} (hsplit : votes = front ++ vote :: back)
      (hfront : 2 * Samples.weight front < Samples.weight votes)
      (hback : 2 * Samples.weight back < Samples.weight votes)
      (heq : picked = ⟨vote.1, false⟩)
  | between {front back : List Sample} {lower upper : Sample}
      (hsplit : votes = front ++ lower :: upper :: back)
      (hhalf : 2 * (Samples.weight front + lower.2) = Samples.weight votes)
      (heq : picked = Checked.signed 64 (lower.1 + upper.1) >>= fun sum => pure (sum.tdiv 2))

theorem pickTarget_picks {votes front rest : List Sample} (target : Int)
    (hsplit : votes = front ++ rest) (hfits : Samples.weight votes < 2 ^ 64)
    (hbefore : 2 * Samples.weight front < Samples.weight votes) :
    Picks votes (pickTarget (Samples.weight votes) target (Samples.weight front) rest) := by
  induction rest generalizing front with
  | nil =>
      rw [List.append_nil] at hsplit
      subst hsplit
      omega
  | cons vote rest ih =>
      obtain ⟨offset, weight⟩ := vote
      have htotal : Samples.weight votes =
          Samples.weight front + weight + Samples.weight rest := by
        rw [hsplit]
        simp [Nat.add_assoc]
      have hcurrent : Checked.unsigned 64 (Samples.weight front + weight) =
          ⟨Samples.weight front + weight, false⟩ := Checked.unsigned_of_lt (by omega)
      unfold pickTarget
      rw [Checked.bind_of_fits hcurrent]
      split
      next hcrossed =>
        exact .within hsplit hbefore (by omega) rfl
      next hnotYet =>
        split
        next hhalf =>
          simp only [Bool.and_eq_true, decide_eq_true_eq] at hhalf
          cases rest with
          | nil =>
              rw [Samples.weight_nil] at htotal
              omega
          | cons next rest =>
              refine .between hsplit ?_ rfl
              dsimp only
              omega
        next hodd =>
          simp only [Bool.and_eq_true, decide_eq_true_eq] at hodd
          have hconcat : Samples.weight (front ++ [(offset, weight)]) =
              Samples.weight front + weight := by simp
          rw [← hconcat]
          refine ih ?_ (by omega)
          rw [hsplit, List.append_assoc, List.singleton_append]

theorem sorted_sortVotes (votes : List Sample) : Samples.Sorted (sortVotes votes) :=
  List.pairwise_insertionSort _ votes

theorem perm_sortVotes (votes : List Sample) : (sortVotes votes).Perm votes :=
  List.perm_insertionSort _ votes

theorem weight_sortVotes (votes : List Sample) :
    Samples.weight (sortVotes votes) = Samples.weight votes :=
  ((perm_sortVotes votes).map Prod.snd).sum_eq

theorem weightWhere_sortVotes (test : Int → Prop) [DecidablePred test] (votes : List Sample) :
    Samples.weightWhere test (sortVotes votes) = Samples.weightWhere test votes :=
  (((perm_sortVotes votes).filter _).map Prod.snd).sum_eq

theorem majority_sortVotes (test : Int → Prop) [DecidablePred test] (votes : List Sample) :
    Samples.Majority test (sortVotes votes) ↔ Samples.Majority test votes := by
  rw [Samples.Majority, Samples.Majority, weight_sortVotes, weightWhere_sortVotes]

theorem weightedMedian_picks {votes : List Sample} (hpos : 0 < Samples.weight votes)
    (hfits : Samples.weight votes < 2 ^ 64) : Picks (sortVotes votes) (weightedMedian votes) := by
  have hsum : Checked.sumUnsigned 64 ((sortVotes votes).map Prod.snd) =
      ⟨Samples.weight (sortVotes votes), false⟩ := by
    refine Checked.sumUnsigned_of_lt ?_
    rw [← weight_sortVotes] at hfits
    exact hfits
  unfold weightedMedian
  rw [Checked.bind_of_fits hsum]
  rw [← weight_sortVotes] at hfits hpos
  have hstart : 2 * Samples.weight ([] : List Sample) < Samples.weight (sortVotes votes) := hpos
  exact pickTarget_picks _ rfl hfits hstart

/-- Half of a sum lies between its parts. -/
theorem tdiv_two_mem {lower upper : Int} (hle : lower ≤ upper) :
    lower ≤ (lower + upper).tdiv 2 ∧ (lower + upper).tdiv 2 ≤ upper := by
  rcases le_total 0 (lower + upper) with hsum | hsum
  · rw [Int.tdiv_eq_ediv_of_nonneg hsum]
    omega
  · obtain ⟨half, hhalf⟩ : ∃ half, half = (-(lower + upper)) / 2 := ⟨_, rfl⟩
    have hneg : (lower + upper).tdiv 2 = -half := by
      rw [hhalf, ← Int.tdiv_eq_ediv_of_nonneg (Int.neg_nonneg_of_nonpos hsum), Int.neg_tdiv,
        Int.neg_neg]
    omega

/-- The middle of an even number of votes of weight one is not within a vote. -/
theorem odd_of_within {votes front back : List Sample} {vote : Sample}
    (hsplit : votes = front ++ vote :: back) (hone : vote.2 = 1)
    (hfront : 2 * Samples.weight front < Samples.weight votes)
    (hback : 2 * Samples.weight back < Samples.weight votes) : Samples.weight votes % 2 = 1 := by
  have htotal := congrArg Samples.weight hsplit
  rw [Samples.weight_append, Samples.weight_cons, hone] at htotal
  omega

/-- The average of two votes within 62 bits fits unless a majority is at the upper end. -/
theorem average_iff {votes front back : List Sample} {lower upper : Sample} {lo hi : Int}
    (hsorted : Samples.Sorted votes) (hsplit : votes = front ++ lower :: upper :: back)
    (hhalf : 2 * (Samples.weight front + lower.2) = Samples.weight votes) (hpos : 0 < lower.2)
    (hlo : -2 ^ 62 ≤ lo) (hhi : hi ≤ 2 ^ 62) (hlower : lo ≤ lower.1) (hupper : upper.1 ≤ hi)
    {picked : Checked Int}
    (hpicked : picked = Checked.signed 64 (lower.1 + upper.1) >>= fun sum => pure (sum.tdiv 2)) :
    (picked.overflowed = false ∧ lo ≤ picked.value ∧ picked.value ≤ hi) ↔
      ¬ Samples.Majority ((2 ^ 62 : Int) ≤ ·) votes := by
  have hmiddle : Samples.Middle votes lower.1 upper.1 := .between hsplit hhalf
  have hle := hmiddle.le hsorted
  by_cases hhigh : (2 : Int) ^ 62 ≤ lower.1
  · have hleaves : ¬ Checked.FitsSigned 64 (lower.1 + upper.1) := by
      rintro ⟨-, hlt⟩
      norm_num at hlt hhigh
      omega
    have hoverflowed : picked.overflowed = true := by
      rw [hpicked, Checked.overflowed_bind, Checked.signed, decide_eq_false hleaves]
      rfl
    rw [hoverflowed]
    exact iff_of_false (fun h => Bool.noConfusion h.1)
      (not_not.mpr (Samples.majority_of_between hsorted hsplit hpos hhalf hhigh))
  · have hfits : Checked.FitsSigned 64 (lower.1 + upper.1) := by
      constructor
      · norm_num at hlo ⊢
        omega
      · norm_num at hhigh hhi ⊢
        omega
    obtain ⟨hbelow, habove⟩ := tdiv_two_mem hle
    rw [hpicked, Checked.bind_of_fits (Checked.signed_of_fits (by norm_num) hfits)]
    refine iff_of_true ⟨rfl, hlower.trans hbelow, habove.trans hupper⟩ fun hmajority => ?_
    exact hhigh (hmiddle.lo_le hsorted hmajority)

/-- With votes of weight one, the median of a majority within 62 bits leaves its type if and
only if the two middle votes are at the upper end. -/
theorem weightedMedian_iff {votes : List Sample} {lo hi : Int}
    (hones : ∀ vote ∈ votes, vote.2 = 1) (hlo : -2 ^ 62 ≤ lo) (hhi : hi ≤ 2 ^ 62)
    (hbelow : Samples.Majority (lo ≤ ·) votes) (habove : Samples.Majority (· ≤ hi) votes) :
    ((weightedMedian votes).overflowed = false ∧ lo ≤ (weightedMedian votes).value ∧
        (weightedMedian votes).value ≤ hi) ↔
      Samples.weight votes < 2 ^ 64 ∧
        (Samples.weight votes % 2 = 1 ∨ ¬ Samples.Majority ((2 ^ 62 : Int) ≤ ·) votes) := by
  have hpos : 0 < Samples.weight votes := by
    have hle : Samples.weightWhere (lo ≤ ·) votes ≤ Samples.weight votes :=
      Samples.weightWhere_le
    rw [Samples.Majority] at hbelow
    omega
  by_cases hfits : Samples.weight votes < 2 ^ 64
  · have hpicks := weightedMedian_picks hpos hfits
    have hsorted := sorted_sortVotes votes
    have hones : ∀ vote ∈ sortVotes votes, vote.2 = 1 := fun vote hmem =>
      hones vote ((perm_sortVotes votes).mem_iff.mp hmem)
    rw [← majority_sortVotes] at hbelow habove ⊢
    rw [← weight_sortVotes] at hfits ⊢
    generalize sortVotes votes = sorted at hpicks hsorted hones hbelow habove hfits ⊢
    cases hpicks with
    | @within front back vote hsplit hfront hback heq =>
        have hmiddle : Samples.Middle sorted vote.1 vote.1 := .within hsplit hfront hback
        have hone : vote.2 = 1 := hones vote (by simp [hsplit])
        rw [heq]
        exact iff_of_true ⟨rfl, hmiddle.lo_le hsorted hbelow, hmiddle.le_hi hsorted habove⟩
          ⟨hfits, .inl (odd_of_within hsplit hone hfront hback)⟩
    | @between front back lower upper hsplit hhalf heq =>
        have hmiddle : Samples.Middle sorted lower.1 upper.1 := .between hsplit hhalf
        have hone : lower.2 = 1 := hones lower (by simp [hsplit])
        have heven : ¬ Samples.weight sorted % 2 = 1 := by omega
        rw [average_iff hsorted hsplit hhalf (by omega) hlo hhi (hmiddle.lo_le hsorted hbelow)
          (hmiddle.le_hi hsorted habove) heq, or_iff_right heven, and_iff_right hfits]
  · have hsum : (Checked.sumUnsigned 64 ((sortVotes votes).map Prod.snd)).overflowed = true := by
      refine Checked.sumUnsigned_overflowed ?_
      rw [← weight_sortVotes] at hfits
      exact Nat.not_lt.mp hfits
    have hoverflowed : (weightedMedian votes).overflowed = true := by
      rw [weightedMedian, Checked.overflowed_bind, hsum, Bool.true_or]
    rw [hoverflowed]
    exact iff_of_false (fun h => Bool.noConfusion h.1) fun h => hfits h.1

/-! ## The votes of a run -/

/-- A sorted list does not depend on the order before, if its keys are told apart. -/
theorem map_sortByKey_of_perm_map {Entry Key : Type} (f : Entry → Key) {rank : Key → Nat}
    (hinjective : Function.Injective rank) {entries : List Entry} {keys : List Key}
    (hperm : (entries.map f).Perm keys) :
    (sortByKey (fun entry => rank (f entry)) entries).map f = sortByKey rank keys := by
  refine List.Perm.eq_of_pairwise (fun left right _ _ hle hge => hinjective (le_antisymm hle hge))
    ?_ (List.pairwise_insertionSort (fun left right => rank left ≤ rank right) keys) ?_
  · rw [List.pairwise_map]
    exact List.pairwise_insertionSort (fun left right => rank (f left) ≤ rank (f right)) entries
  · exact ((List.perm_insertionSort _ _).map f).trans
      (hperm.trans (List.perm_insertionSort _ _).symm)

/-- The vote of an identity with one sample. -/
def soleVote (sample : Sample) : Sample :=
  (if 0 < sample.2 then (saturatingMul sample.1 sample.2).tdiv sample.2 else 0, max sample.2 1)

theorem averageSamples_singleton {sample : Sample} (hweight : sample.2 < 2 ^ 32) :
    averageSamples [sample] = ⟨soleVote sample, false⟩ := by
  obtain ⟨offset, weight⟩ := sample
  have hweights : Checked.sumUnsigned 64 [weight] = ⟨weight, false⟩ := by
    refine Checked.sumUnsigned_of_lt ?_
    rw [List.sum_singleton]
    exact hweight.trans (by norm_num)
  have hproduct : Checked.sumSigned 64 [saturatingMul offset weight] =
      ⟨saturatingMul offset weight, false⟩ := by
    refine Checked.sumSigned_singleton (by norm_num) ⟨le_max_left _ _, ?_⟩
    exact max_lt (by norm_num) ((min_le_left _ _).trans_lt (by norm_num))
  have hcast : (Checked.signed 64 (weight : Int)).value = weight := by
    refine congrArg Checked.value (Checked.signed_of_fits (by norm_num) ⟨?_, ?_⟩)
    · exact le_trans (by norm_num) (Int.natCast_nonneg weight)
    · exact_mod_cast hweight.trans (by norm_num)
  unfold averageSamples
  rw [List.map_singleton, List.map_singleton, Checked.bind_of_fits hweights]
  dsimp only
  rw [Checked.bind_of_fits hproduct, hcast, Checked.pure_eq, soleVote, List.length_singleton,
    Nat.div_one, Nat.mod_eq_of_lt hweight]
  by_cases hpos : 0 < weight
  · rw [if_pos hpos, if_pos hpos]
  · rw [if_neg hpos, if_neg hpos, Nat.eq_zero_of_not_pos hpos]
    rfl

variable {reports : List Report}

/-- The last report for an identity. -/
def lastReport (reports : List Report) (logicalPk : LogicalIdentityPk) : Option Report :=
  lastSome (fun report => if logicalPk = report.logicalPk then some report else none) reports

/-- The identities that reported, in their order. -/
def identities (reports : List Report) : List LogicalIdentityPk :=
  sortByKey (fun logicalPk => logicalPk.bytes.toNat) (reports.map Report.logicalPk).dedup

theorem toNat_bytes_injective :
    Function.Injective fun logicalPk : LogicalIdentityPk => logicalPk.bytes.toNat := by
  rintro ⟨left⟩ ⟨right⟩ heq
  exact congrArg LogicalIdentityPk.mk (BitVec.eq_of_toNat_eq heq)

theorem lastReport_isSome {logicalPk : LogicalIdentityPk} :
    (lastReport reports logicalPk).isSome ↔ logicalPk ∈ reports.map Report.logicalPk := by
  rw [lastReport, lastSome_isSome, List.mem_map]
  refine exists_congr fun report => and_congr_right fun _ => ?_
  by_cases heq : logicalPk = report.logicalPk
  · simp [heq]
  · simp [heq, Ne.symm heq]

/-- The last sample for an identity. -/
def lastSample (reports : List Report) (logicalPk : LogicalIdentityPk) : Sample :=
  ((lastReport reports logicalPk).map Report.sample).getD (0, 0)

/-- What the identities vote with. -/
def votes (reports : List Report) : List Sample :=
  (identities reports).map fun logicalPk => soleVote (lastSample reports logicalPk)

theorem lastSample_weight_lt (reports : List Report) (logicalPk : LogicalIdentityPk) :
    (lastSample reports logicalPk).2 < 2 ^ 32 := by
  unfold lastSample
  cases lastReport reports logicalPk with
  | none => exact Nat.two_pow_pos 32
  | some report => exact report.weight.isLt

variable [ClockFloat]

theorem peerOffsets_recalculateConsensus (clock : NetworkClock) :
    clock.recalculateConsensus.value.peerOffsets = clock.peerOffsets := by
  unfold recalculateConsensus
  rw [Checked.value_bind]
  split <;> rfl

theorem peerOffsets_step (clock : NetworkClock) (report : Report) :
    (clock.step report).value.peerOffsets =
      clock.peerOffsets.insert report.logicalPk [report.sample] :=
  peerOffsets_recalculateConsensus _

theorem get_run (reports : List Report) (logicalPk : LogicalIdentityPk) :
    (run reports).peerOffsets.get logicalPk =
      (lastReport reports logicalPk).map fun report => [report.sample] := by
  induction reports using List.reverseRecOn with
  | nil => rfl
  | append_singleton reports report ih =>
      have hstep : (run (reports ++ [report])).peerOffsets =
          (run reports).peerOffsets.insert report.logicalPk [report.sample] := by
        rw [run, List.foldl_append, List.foldl_cons, List.foldl_nil, peerOffsets_step]
        rfl
      rw [hstep, AssocMap.get_insert, ih, lastReport, lastReport, lastSome_append_singleton]
      by_cases heq : logicalPk = report.logicalPk
      · rw [if_pos heq, if_pos heq]
        rfl
      · rw [if_neg heq, if_neg heq]
        rfl

theorem perm_keys_run (reports : List Report) :
    ((run reports).peerOffsets.entries.map Prod.fst).Perm
      (reports.map Report.logicalPk).dedup := by
  refine (List.perm_ext_iff_of_nodup (run reports).peerOffsets.nodupKeys
    (List.nodup_dedup _)).mpr fun logicalPk => ?_
  have hkeys : logicalPk ∈ (run reports).peerOffsets.keys ↔
      ((run reports).peerOffsets.get logicalPk).isSome := by
    rw [Option.isSome_iff_ne_none, Ne, AssocMap.get_eq_none_iff, not_not]
  rw [List.mem_dedup, ← lastReport_isSome]
  refine hkeys.trans ?_
  rw [get_run, Option.isSome_map]

/-- Each identity votes with the last sample reported for it. -/
theorem identitySamples_run (reports : List Report) :
    (run reports).identitySamples = ⟨votes reports, false⟩ := by
  have hkeys : (sortByKey (fun entry : LogicalIdentityPk × List Sample => entry.1.bytes.toNat)
      (run reports).peerOffsets.entries).map Prod.fst = identities reports :=
    map_sortByKey_of_perm_map Prod.fst toNat_bytes_injective (perm_keys_run reports)
  have hvalues : (sortByKey (fun entry : LogicalIdentityPk × List Sample =>
      entry.1.bytes.toNat) (run reports).peerOffsets.entries).map Prod.snd =
        (identities reports).map fun logicalPk => [lastSample reports logicalPk] := by
    rw [← hkeys, List.map_map]
    refine List.map_congr_left fun entry hentry => ?_
    have hmem := (List.perm_insertionSort _ _).mem_iff.mp hentry
    have hget := AssocMap.get_eq_some_iff.mpr hmem
    rw [get_run] at hget
    obtain ⟨report, hreport, heq⟩ := Option.map_eq_some_iff.mp hget
    rw [Function.comp_apply, lastSample, hreport]
    exact heq.symm
  unfold identitySamples
  rw [hvalues, List.filter_eq_self.mpr, Checked.mapM_of_fits
    (g := fun samples => soleVote (samples.head?.getD (0, 0))), List.map_map]
  · rfl
  · intro samples hsamples
    obtain ⟨logicalPk, -, rfl⟩ := List.mem_map.mp hsamples
    exact averageSamples_singleton (lastSample_weight_lt reports logicalPk)
  · intro samples hsamples
    obtain ⟨logicalPk, -, rfl⟩ := List.mem_map.mp hsamples
    rfl

end NetworkClock

end MerkleTox.Core
