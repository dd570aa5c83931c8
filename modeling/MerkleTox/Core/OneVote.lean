import MerkleTox.Core.ConsensusTarget

/-! # One vote for each identity

Devices that are identities of their own have equal votes, and the target stays where most of
them are. Several devices of one identity share a vote; the last one to report decides it.
-/

namespace MerkleTox.Core

open Library

variable {target offset : Int} {sample : Sample}

namespace NetworkClock

/-! ## The recalculation -/

section Recalculation

variable [ClockFloat] {clock : NetworkClock}

/-- The offsets of the clock are within the cap. -/
structure Capped (clock : NetworkClock) : Prop where
  target : clock.targetOffset.natAbs ≤ 300000
  current : (ClockFloat.toI64 clock.currentOffset).natAbs ≤ 300000

theorem toI64_ofI64_of_le (htarget : target.natAbs ≤ 300000) :
    ClockFloat.toI64 (ClockFloat.ofI64 target) = target :=
  ClockFloat.toI64_ofI64 target (htarget.trans (by norm_num))

theorem capped_new : Capped new where
  target := Nat.zero_le _
  current := by
    have hzero : ClockFloat.toI64 (ClockFloat.ofI64 0) = 0 := toI64_ofI64_of_le (Nat.zero_le _)
    rw [new, hzero]
    exact Nat.zero_le _

/-- Between capped offsets the drift fits. -/
theorem Capped.retarget (h : clock.Capped) (htarget : target.natAbs ≤ 300000) :
    (clock.retarget target).overflowed = false ∧ (clock.retarget target).value.Capped := by
  have hjump := toI64_ofI64_of_le htarget
  have hsmall : ∀ n : Int, n.natAbs ≤ 600000 → Checked.signed 64 n = ⟨n, false⟩ := by
    intro n hn
    refine Checked.signed_of_fits (by norm_num) ⟨?_, ?_⟩
    · norm_num
      omega
    · norm_num
      omega
  unfold NetworkClock.retarget
  generalize hcurrent : (if clock.targetOffset = 0 && ClockFloat.isZero clock.currentOffset &&
    clock.peerOffsets.size = 1 then ClockFloat.ofI64 target else clock.currentOffset) = current
  have hcapped : (ClockFloat.toI64 current).natAbs ≤ 300000 := by
    rw [← hcurrent]
    split
    · rw [hjump]
      exact htarget
    · exact h.current
  have hdrift : (target - ClockFloat.toI64 current).natAbs ≤ 600000 := by omega
  rw [Checked.bind_of_fits (hsmall _ hdrift),
    Checked.bind_of_fits (hsmall _ (by rwa [Int.natAbs_abs])), Checked.pure_eq]
  refine ⟨rfl, htarget, ?_⟩
  dsimp only
  split
  · rw [hjump]
    exact htarget
  · exact hcapped

omit [ClockFloat] in
theorem natAbs_cap (target : Int) :
    (max (-maxTargetOffset) (min maxTargetOffset target)).natAbs ≤ 300000 := by
  simp only [maxTargetOffset]
  omega

theorem Capped.recalculateConsensus (h : clock.Capped) :
    clock.recalculateConsensus.value.Capped := by
  unfold NetworkClock.recalculateConsensus
  rw [Checked.value_bind]
  split
  · exact h
  · rw [Checked.value_bind]
    exact (h.retarget (natAbs_cap _)).2

variable (reports : List Report)

theorem capped_run : (run reports).Capped := by
  induction reports using List.reverseRecOn with
  | nil => exact capped_new
  | append_singleton reports report ih =>
      rw [run, List.foldl_append, List.foldl_cons, List.foldl_nil]
      have hrecorded : ((run reports).recordSample report.peer report.logicalPk
          report.sample).Capped := ⟨ih.target, ih.current⟩
      exact hrecorded.recalculateConsensus

/-- A recalculation overflows if and only if the median does. -/
theorem Capped.overflowed_recalculateConsensus (h : clock.Capped) {votes : List Sample}
    (hvotes : clock.identitySamples = ⟨votes, false⟩) (hsome : votes ≠ []) :
    clock.recalculateConsensus.overflowed = (weightedMedian votes).overflowed := by
  unfold NetworkClock.recalculateConsensus
  rw [Checked.bind_of_fits hvotes, if_neg (List.isEmpty_iff.not.mpr hsome),
    Checked.overflowed_bind, (h.retarget (natAbs_cap _)).1, Bool.or_false]

theorem peerOffsets_run_append (report : Report) :
    (run (reports ++ [report])).peerOffsets =
      ((run reports).recordSample report.peer report.logicalPk report.sample).peerOffsets := by
  rw [run, List.foldl_append, List.foldl_cons, List.foldl_nil, peerOffsets_step]
  rfl

/-- The last step of a run recalculates with the votes of the whole run. -/
theorem overflowed_step (report : Report) :
    ((run reports).step report).overflowed =
      (weightedMedian (votes (reports ++ [report]))).overflowed := by
  have hcapped := capped_run reports
  have hrecorded : ((run reports).recordSample report.peer report.logicalPk
      report.sample).Capped := ⟨hcapped.target, hcapped.current⟩
  refine hrecorded.overflowed_recalculateConsensus ?_ ?_
  · rw [← identitySamples_run, identitySamples, identitySamples, peerOffsets_run_append]
  · have hmem : report.logicalPk ∈ identities (reports ++ [report]) := by
      refine (List.perm_insertionSort _ _).mem_iff.mpr (List.mem_dedup.mpr ?_)
      exact List.mem_map_of_mem (List.mem_append_right _ (List.mem_singleton_self _))
    exact List.ne_nil_of_mem (List.mem_map_of_mem hmem)

theorem medianOffset_run :
    (run reports).medianOffset = weightedMedian (votes reports) :=
  Checked.bind_of_fits (identitySamples_run reports) _

end Recalculation

/-! ## Devices that are their own identities -/

section Majority

/-- A call of `update_peer_offset`. -/
abbrev Call := PhysicalDevicePk × BitVec 64

def ownReport (call : Call) : Report := ⟨call.1, call.1.toLogical, call.2, 1⟩

variable (calls : List Call)

def devices : List PhysicalDevicePk := (calls.map Prod.fst).dedup

/-- The last call for a device. -/
def lastCall (device : PhysicalDevicePk) : Option Call :=
  lastSome (fun call => if device = call.1 then some call else none) calls

def latestOffset (device : PhysicalDevicePk) : Int :=
  ((lastCall calls device).map fun call => call.2.toInt).getD 0

/-- The devices whose latest offset is in an interval. -/
def devicesWithin (lo hi : Int) : List PhysicalDevicePk :=
  (devices calls).filter fun device =>
    lo ≤ latestOffset calls device ∧ latestOffset calls device ≤ hi

/-- The devices whose latest offset is at least a bound. -/
def devicesFrom (bound : Int) : List PhysicalDevicePk :=
  (devices calls).filter fun device => bound ≤ latestOffset calls device

theorem toLogical_injective : Function.Injective PhysicalDevicePk.toLogical := by
  rintro ⟨left⟩ ⟨right⟩ heq
  exact congrArg PhysicalDevicePk.mk (LogicalIdentityPk.mk.inj heq)

theorem lastReport_own (device : PhysicalDevicePk) :
    lastReport (calls.map ownReport) device.toLogical = (lastCall calls device).map ownReport := by
  induction calls using List.reverseRecOn with
  | nil => rfl
  | append_singleton calls call ih =>
      rw [List.map_append, List.map_singleton, lastReport, lastSome_append_singleton, lastCall,
        lastSome_append_singleton]
      by_cases heq : device = call.1
      · subst heq
        rw [if_pos rfl, ownReport, if_pos rfl]
        rfl
      · rw [if_neg heq, ownReport, if_neg fun h => heq (toLogical_injective h)]
        exact ih

theorem soleVote_one (hlow : -2 ^ 63 ≤ offset) (hhigh : offset < 2 ^ 63) :
    soleVote (offset, 1) = (offset, 1) := by
  have hproduct : saturatingMul offset (1 : Nat) = offset := by
    rw [saturatingMul, Nat.cast_one, Int.mul_one]
    norm_num at hlow hhigh ⊢
    omega
  rw [soleVote, if_pos Nat.one_pos, hproduct, Nat.cast_one, Int.tdiv_one]
  rfl

/-- Every device has one vote, its latest offset. -/
theorem perm_votes_own :
    (votes (calls.map ownReport)).Perm
      ((devices calls).map fun device => (latestOffset calls device, 1)) := by
  have hidentities : (identities (calls.map ownReport)).Perm
      ((devices calls).map PhysicalDevicePk.toLogical) := by
    refine (List.perm_insertionSort _ _).trans (List.Perm.of_eq ?_)
    rw [devices, ← List.dedup_map_of_injective toLogical_injective, List.map_map, List.map_map]
    rfl
  refine (hidentities.map _).trans (List.Perm.of_eq ?_)
  rw [List.map_map]
  refine List.map_congr_left fun device hdevice => ?_
  have hcalled : (lastCall calls device).isSome := by
    obtain ⟨call, hcall, rfl⟩ := List.mem_map.mp (List.mem_dedup.mp hdevice)
    rw [lastCall, lastSome_isSome]
    exact ⟨call, hcall, by rw [if_pos rfl]; rfl⟩
  obtain ⟨call, hcall⟩ := Option.isSome_iff_exists.mp hcalled
  have hlow := BitVec.le_toInt call.2
  have hhigh := BitVec.toInt_lt (x := call.2)
  rw [Function.comp_apply, lastSample, lastReport_own, latestOffset, hcall]
  have hvote : soleVote (call.2.toInt, 1) = (call.2.toInt, 1) :=
    soleVote_one (by simpa using hlow) (by simpa using hhigh)
  exact hvote

theorem weight_ones {Entry : Type} (entries : List Entry) (offset : Entry → Int) :
    Samples.weight (entries.map fun entry => (offset entry, 1)) = entries.length := by
  induction entries with
  | nil => rfl
  | cons entry rest ih =>
      rw [List.map_cons, Samples.weight_cons, ih, List.length_cons, Nat.add_comm]

theorem weight_own :
    Samples.weight (votes (calls.map ownReport)) = (devices calls).length := by
  rw [← weight_ones (devices calls) (latestOffset calls)]
  exact ((perm_votes_own calls).map Prod.snd).sum_eq

/-- A majority of the votes is one of the devices. -/
theorem majority_own (test : Int → Prop) [DecidablePred test] :
    Samples.Majority test (votes (calls.map ownReport)) ↔ (devices calls).length <
      2 * ((devices calls).filter fun device => test (latestOffset calls device)).length := by
  have hweight : Samples.weightWhere test (votes (calls.map ownReport)) =
      ((devices calls).filter fun device => test (latestOffset calls device)).length := by
    rw [← weight_ones _ (latestOffset calls), Samples.weightWhere]
    refine ((((perm_votes_own calls).filter _).map Prod.snd).sum_eq).trans ?_
    rw [List.filter_map]
    rfl
  rw [Samples.Majority, weight_own, hweight]

/-- With the latest offsets of most devices within 62 bits, the target is among them and nothing
overflows, unless there are `2 ^ 64` devices, or evenly many of which most are at `2 ^ 62` or
beyond. -/
theorem target_within_majority_iff [ClockFloat] (call : Call) {lo hi : Int} (hlo : -2 ^ 62 ≤ lo)
    (hhi : hi ≤ 2 ^ 62)
    (hmajority : (devices (calls ++ [call])).length <
      2 * (devicesWithin (calls ++ [call]) lo hi).length) :
    (((run (calls.map ownReport)).updatePeerOffset call.1 call.2.toInt).overflowed = false ∧
        lo ≤ (run ((calls ++ [call]).map ownReport)).medianOffset.value ∧
        (run ((calls ++ [call]).map ownReport)).medianOffset.value ≤ hi) ↔
      (devices (calls ++ [call])).length < 2 ^ 64 ∧
        ((devices (calls ++ [call])).length % 2 = 1 ∨
          2 * (devicesFrom (calls ++ [call]) (2 ^ 62)).length ≤
            (devices (calls ++ [call])).length) := by
  have hlast : (run (calls.map ownReport)).updatePeerOffset call.1 call.2.toInt =
      (run (calls.map ownReport)).step (ownReport call) := rfl
  have happend : calls.map ownReport ++ [ownReport call] = (calls ++ [call]).map ownReport := by
    rw [List.map_append, List.map_singleton]
  rw [hlast, overflowed_step, happend, medianOffset_run]
  generalize calls ++ [call] = all at hmajority ⊢
  have hwithin : Samples.Majority (fun offset => lo ≤ offset ∧ offset ≤ hi)
      (votes (all.map ownReport)) := (majority_own all _).mpr hmajority
  have hones : ∀ vote ∈ votes (all.map ownReport), vote.2 = 1 := by
    intro vote hvote
    obtain ⟨device, -, rfl⟩ := List.mem_map.mp ((perm_votes_own all).mem_iff.mp hvote)
    rfl
  have hmedian := weightedMedian_iff hones hlo hhi (hwithin.mono fun _ h => h.1)
    (hwithin.mono fun _ h => h.2)
  rw [hmedian, weight_own, majority_own, Nat.not_lt]
  rfl

end Majority

/-! ## Devices that share an identity -/

section Shared

variable {reports reports' : List Report} {logicalPk : LogicalIdentityPk}
  {device : PhysicalDevicePk}

/-- The latest sample of a device for an identity. -/
def latestSample (reports : List Report) (logicalPk : LogicalIdentityPk)
    (device : PhysicalDevicePk) : Option Sample :=
  lastSome (fun report => if logicalPk = report.logicalPk ∧ device = report.peer then
    some report.sample else none) reports

def devicesOf (reports : List Report) (logicalPk : LogicalIdentityPk) : List PhysicalDevicePk :=
  ((reports.filter fun report => logicalPk = report.logicalPk).map Report.peer).dedup

/-- The latest samples of the devices of an identity. -/
def latestSamples (reports : List Report) (logicalPk : LogicalIdentityPk) : List Sample :=
  (devicesOf reports logicalPk).filterMap (latestSample reports logicalPk)

/-- The weighted average of samples, with their average weight. -/
def averagedVote (samples : List Sample) : Sample :=
  ((samples.map fun sample : Sample => sample.1 * sample.2).sum.tdiv (samples.map Prod.snd).sum,
    max ((samples.map Prod.snd).sum / samples.length) 1)

/-- One averaged vote for each identity. -/
def averagedVotes (reports : List Report) : List Sample :=
  (identities reports).map fun logicalPk => averagedVote (latestSamples reports logicalPk)

/-- Every device has the same latest sample, whatever the order of the reports. -/
def SameLatest (reports reports' : List Report) : Prop :=
  ∀ logicalPk device,
    latestSample reports' logicalPk device = latestSample reports logicalPk device

theorem latestSample_isSome : (latestSample reports logicalPk device).isSome ↔
    ∃ report ∈ reports, logicalPk = report.logicalPk ∧ device = report.peer := by
  rw [latestSample, lastSome_isSome]
  refine exists_congr fun report => and_congr_right fun _ => ?_
  by_cases h : logicalPk = report.logicalPk ∧ device = report.peer
  · simp [h]
  · rw [if_neg h]
    simp [h]

theorem mem_devicesOf : device ∈ devicesOf reports logicalPk ↔
    (latestSample reports logicalPk device).isSome := by
  rw [latestSample_isSome, devicesOf, List.mem_dedup, List.mem_map]
  refine exists_congr fun report => ?_
  rw [List.mem_filter, decide_eq_true_eq, and_assoc, and_congr_right_iff]
  exact fun _ => and_congr_right fun _ => eq_comm

theorem mem_reporters : logicalPk ∈ (reports.map Report.logicalPk).dedup ↔
    ∃ device, (latestSample reports logicalPk device).isSome := by
  rw [List.mem_dedup, List.mem_map]
  constructor
  · rintro ⟨report, hreport, rfl⟩
    exact ⟨report.peer, latestSample_isSome.mpr ⟨report, hreport, rfl, rfl⟩⟩
  · rintro ⟨device, hdevice⟩
    obtain ⟨report, hreport, heq, -⟩ := latestSample_isSome.mp hdevice
    exact ⟨report, hreport, heq.symm⟩

theorem mem_latestSamples : sample ∈ latestSamples reports logicalPk ↔
    ∃ device, latestSample reports logicalPk device = some sample := by
  rw [latestSamples, List.mem_filterMap]
  refine exists_congr fun device => and_iff_right_of_imp fun hsample => ?_
  rw [mem_devicesOf, hsample]
  rfl

namespace SameLatest

theorem identities_eq (h : SameLatest reports reports') :
    identities reports' = identities reports := by
  have hperm : (((reports'.map Report.logicalPk).dedup).map id).Perm
      (reports.map Report.logicalPk).dedup := by
    rw [List.map_id]
    refine (List.perm_ext_iff_of_nodup (List.nodup_dedup _) (List.nodup_dedup _)).mpr
      fun logicalPk => ?_
    rw [mem_reporters, mem_reporters]
    exact exists_congr fun device => by rw [h]
  have hsorted := map_sortByKey_of_perm_map id toNat_bytes_injective hperm
  rwa [List.map_id] at hsorted

end SameLatest

/-- The last report for an identity is the latest of its device. -/
theorem latestSample_of_lastReport {report : Report}
    (h : lastReport reports logicalPk = some report) :
    latestSample reports logicalPk report.peer = some report.sample := by
  induction reports using List.reverseRecOn with
  | nil => cases h
  | append_singleton reports last ih =>
      rw [lastReport, lastSome_append_singleton] at h
      rw [latestSample, lastSome_append_singleton]
      by_cases heq : logicalPk = last.logicalPk
      · rw [if_pos heq, Option.some_or] at h
        cases h
        rw [if_pos ⟨heq, rfl⟩, Option.some_or]
      · rw [if_neg heq, Option.none_or] at h
        rw [if_neg fun hboth => heq hboth.1, Option.none_or]
        exact ih h

/-- A device may report its latest sample once more, and then it is the last one. -/
theorem exists_report_again (h : latestSample reports logicalPk device = some sample) :
    ∃ report : Report, SameLatest reports (reports ++ [report]) ∧
      lastReport (reports ++ [report]) logicalPk = some report ∧ report.sample = sample := by
  obtain ⟨report, -, htells⟩ := List.exists_of_findSome?_eq_some h
  split at htells
  next hboth =>
    obtain ⟨rfl, rfl⟩ := hboth
    cases htells
    refine ⟨report, fun logicalPk device => ?_, ?_, rfl⟩
    · rw [latestSample, lastSome_append_singleton]
      split
      next hsame => rw [hsame.1, hsame.2, h, Option.some_or]
      next => rfl
    · rw [lastReport, lastSome_append_singleton, if_pos rfl, Option.some_or]
  next => cases htells

variable [ClockFloat]

/-- Whatever the order of the reports, each identity has the averaged vote of its devices, and
the median is that of these votes, if and only if every device alone has the vote of all of its
identity. -/
theorem oneVote_iff (reports : List Report) :
    (∀ reports', SameLatest reports reports' →
      (run reports').identitySamples.value = averagedVotes reports ∧
        (run reports').medianOffset = weightedMedian (averagedVotes reports)) ↔
      ∀ logicalPk ∈ identities reports, ∀ sample ∈ latestSamples reports logicalPk,
        soleVote sample = averagedVote (latestSamples reports logicalPk) := by
  constructor
  · intro h logicalPk hmem sample hsample
    obtain ⟨device, hdevice⟩ := mem_latestSamples.mp hsample
    obtain ⟨report, hsame, hlast, rfl⟩ := exists_report_again hdevice
    have hvotes := (h _ hsame).1
    rw [identitySamples_run, votes, averagedVotes, hsame.identities_eq] at hvotes
    have hvote := List.map_inj_left.mp hvotes logicalPk hmem
    rwa [lastSample, hlast] at hvote
  · intro h reports' hsame
    have hvotes : votes reports' = averagedVotes reports := by
      rw [votes, averagedVotes, hsame.identities_eq]
      refine List.map_congr_left fun logicalPk hmem => ?_
      have hreported : (lastReport reports' logicalPk).isSome := by
        rw [lastReport_isSome, ← List.mem_dedup, mem_reporters]
        rw [identities] at hmem
        obtain ⟨device, hdevice⟩ :=
          mem_reporters.mp ((List.perm_insertionSort _ _).mem_iff.mp hmem)
        exact ⟨device, by rwa [hsame]⟩
      obtain ⟨report, hreport⟩ := Option.isSome_iff_exists.mp hreported
      have hlatest := latestSample_of_lastReport hreport
      rw [hsame] at hlatest
      rw [lastSample, hreport]
      exact h logicalPk hmem _ (mem_latestSamples.mpr ⟨_, hlatest⟩)
    rw [medianOffset_run, identitySamples_run, hvotes]
    exact ⟨rfl, rfl⟩

end Shared

/-! ## Three calls and two orders -/

/-- Whole numbers, for an `f64` that is never between them. -/
instance wholeFloat : ClockFloat where
  F64 := Int
  ofI64 n := n
  toI64 n := n
  isZero n := n = 0
  toI64_ofI64 _ _ := rfl

theorem target_within_majority_three :
    (((run ([(⟨1⟩, 100), (⟨2⟩, 110)].map ownReport)).updatePeerOffset ⟨3⟩
        (BitVec.intMin 64).toInt).overflowed = false ∧
      100 ≤ (run ([(⟨1⟩, 100), (⟨2⟩, 110), (⟨3⟩, BitVec.intMin 64)].map
        ownReport)).medianOffset.value ∧
      (run ([(⟨1⟩, 100), (⟨2⟩, 110), (⟨3⟩, BitVec.intMin 64)].map
        ownReport)).medianOffset.value ≤ 110) ↔
      (devices [(⟨1⟩, 100), (⟨2⟩, 110), (⟨3⟩, BitVec.intMin 64)]).length < 2 ^ 64 ∧
        ((devices [(⟨1⟩, 100), (⟨2⟩, 110), (⟨3⟩, BitVec.intMin 64)]).length % 2 = 1 ∨
          2 * (devicesFrom [(⟨1⟩, 100), (⟨2⟩, 110), (⟨3⟩, BitVec.intMin 64)] (2 ^ 62)).length ≤
            (devices [(⟨1⟩, 100), (⟨2⟩, 110), (⟨3⟩, BitVec.intMin 64)]).length) :=
  target_within_majority_iff [(⟨1⟩, 100), (⟨2⟩, 110)] (⟨3⟩, BitVec.intMin 64) (by norm_num)
    (by norm_num) (by decide +kernel)

/-- Two devices at `2 ^ 62` agree, and the sum of their offsets is `2 ^ 63`. -/
theorem midpoint_overflows :
    (devices [(⟨1⟩, 2 ^ 62), (⟨2⟩, 2 ^ 62)]).length <
        2 * (devicesWithin [(⟨1⟩, 2 ^ 62), (⟨2⟩, 2 ^ 62)] (2 ^ 62) (2 ^ 62)).length ∧
      ((run ([(⟨1⟩, 2 ^ 62)].map ownReport)).updatePeerOffset ⟨2⟩
        (2 ^ 62)).overflowed = true ∧
      (run ([(⟨1⟩, 2 ^ 62), (⟨2⟩, 2 ^ 62)].map ownReport)).medianOffset.value =
        -2 ^ 62 := by
  decide +kernel

/-- Two devices of one identity: the one that reports last decides the vote. -/
theorem last_device_overrides :
    SameLatest [⟨⟨1⟩, ⟨9⟩, 0, 1⟩, ⟨⟨2⟩, ⟨9⟩, 1000, 1⟩]
        [⟨⟨2⟩, ⟨9⟩, 1000, 1⟩, ⟨⟨1⟩, ⟨9⟩, 0, 1⟩] ∧
      averagedVotes [⟨⟨1⟩, ⟨9⟩, 0, 1⟩, ⟨⟨2⟩, ⟨9⟩, 1000, 1⟩] = [(500, 1)] ∧
      (run [⟨⟨1⟩, ⟨9⟩, 0, 1⟩, ⟨⟨2⟩, ⟨9⟩, 1000, 1⟩]).medianOffset = ⟨1000, false⟩ ∧
      (run [⟨⟨2⟩, ⟨9⟩, 1000, 1⟩, ⟨⟨1⟩, ⟨9⟩, 0, 1⟩]).medianOffset = ⟨0, false⟩ := by
  refine ⟨fun logicalPk device => ?_, by decide +kernel, by decide +kernel, by decide +kernel⟩
  simp only [latestSample, lastSome, List.reverse_cons, List.reverse_nil, List.nil_append,
    List.cons_append, List.findSome?_cons, List.findSome?_nil]
  by_cases hfirst : logicalPk = ⟨9⟩ ∧ device = ⟨1⟩
  · have hsecond : ¬ (logicalPk = ⟨9⟩ ∧ device = ⟨2⟩) := by
      rintro ⟨-, rfl⟩
      exact absurd hfirst.2 (by decide)
    rw [if_pos hfirst, if_neg hsecond]
  · rw [if_neg hfirst]

end NetworkClock

end MerkleTox.Core
