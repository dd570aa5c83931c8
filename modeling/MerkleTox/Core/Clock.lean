import Mathlib.Data.BitVec
import MerkleTox.Core.Dag
import MerkleTox.Library.LastWriter
import MerkleTox.Library.Overflow
import MerkleTox.Library.WeightedMedian

/-! # The consensus clock

`merkle_tox_core::clock`. Each logical identity has one vote on the offset of the network time,
an average of samples, and the votes are reduced to their weighted median. The target is within
five minutes; the clock jumps there from far away and slews otherwise.
-/

namespace MerkleTox.Core

open Library

/-- `f64`, as the clock uses it: it holds the target exactly. -/
class ClockFloat where
  F64 : Type
  ofI64 : Int → F64
  /-- `as i64`. -/
  toI64 : F64 → Int
  /-- `== 0.0`. -/
  isZero : F64 → Bool
  toI64_ofI64 : ∀ n : Int, n.natAbs ≤ 2 ^ 53 → toI64 (ofI64 n) = n

/-- `SLEW_THRESHOLD_MS`. -/
def slewThresholdMs : Int := 600000

/-- The cap of the target, five minutes. -/
def maxTargetOffset : Int := 300000

/-- A sample of an offset with its weight, an `i64` and a `u32`. -/
abbrev Sample := Int × Nat

structure NetworkClock [ClockFloat] where
  peerOffsets : AssocMap LogicalIdentityPk (List Sample)
  deviceToIdentity : AssocMap PhysicalDevicePk LogicalIdentityPk
  targetOffset : Int
  currentOffset : ClockFloat.F64

namespace NetworkClock

/-! ## The votes -/

/-- `i64::saturating_mul`. -/
def saturatingMul (left right : Int) : Int := max (-2 ^ 63) (min (2 ^ 63 - 1) (left * right))

/-- The vote of the samples of one identity. -/
def averageSamples (samples : List Sample) : Checked Sample := do
  let totalW ← Checked.sumUnsigned 64 (samples.map Prod.snd)
  let weightedSum ← Checked.sumSigned 64
    (samples.map fun (offset, weight) => saturatingMul offset weight)
  let avgOffset := if 0 < totalW then weightedSum.tdiv (Checked.signed 64 totalW).value else 0
  let avgWeight := if 0 < totalW then totalW / samples.length % 2 ^ 32 else 1
  pure (avgOffset, max avgWeight 1)

/-- The loop over the sorted votes; without a vote that reaches the middle, the target stays. -/
def pickTarget (totalWeight : Nat) (target : Int) : Nat → List Sample → Checked Int
  | _, [] => pure target
  | currentWeight, (offset, weight) :: rest => do
      let currentWeight ← Checked.unsigned 64 (currentWeight + weight)
      if totalWeight / 2 < currentWeight then pure offset
      else if currentWeight = totalWeight / 2 && totalWeight % 2 = 0 then
        match rest with
        | [] => pure offset
        | (next, _) :: _ => do
            let sum ← Checked.signed 64 (offset + next)
            pure (sum.tdiv 2)
      else pickTarget totalWeight target currentWeight rest

def sortVotes (votes : List Sample) : List Sample :=
  votes.insertionSort fun left right => left.1 ≤ right.1

/-- The weighted median, before the target is capped. -/
def weightedMedian (votes : List Sample) : Checked Int := do
  let sorted := sortVotes votes
  let totalWeight ← Checked.sumUnsigned 64 (sorted.map Prod.snd)
  pickTarget totalWeight ((sorted.getLast?.map Prod.fst).getD 0) 0 sorted

variable [ClockFloat]

/-- The votes in the order of the identities. -/
def identitySamples (clock : NetworkClock) : Checked (List Sample) :=
  (((sortByKey (fun entry : LogicalIdentityPk × List Sample => entry.1.bytes.toNat)
    clock.peerOffsets.entries).map Prod.snd).filter fun samples => !samples.isEmpty).mapM
      averageSamples

/-- Step 1 and 2 of `recalculate_consensus`. -/
def medianOffset (clock : NetworkClock) : Checked Int := do
  let votes ← clock.identitySamples
  weightedMedian votes

/-- The first sample and a massive drift are jumped to. -/
def retarget (clock : NetworkClock) (target : Int) : Checked NetworkClock := do
  let current :=
    if clock.targetOffset = 0 && ClockFloat.isZero clock.currentOffset &&
        clock.peerOffsets.size = 1 then ClockFloat.ofI64 target
    else clock.currentOffset
  let difference ← Checked.signed 64 (target - ClockFloat.toI64 current)
  let drift ← Checked.signed 64 |difference|
  pure { clock with
    targetOffset := target
    currentOffset := if slewThresholdMs < drift then ClockFloat.ofI64 target else current }

def recalculateConsensus (clock : NetworkClock) : Checked NetworkClock := do
  let votes ← clock.identitySamples
  if votes.isEmpty then pure clock
  else do
    let target ← weightedMedian votes
    clock.retarget (max (-maxTargetOffset) (min maxTargetOffset target))

/-- A sample replaces the samples of its identity. -/
def recordSample (clock : NetworkClock) (peer : PhysicalDevicePk) (logicalPk : LogicalIdentityPk)
    (sample : Sample) : NetworkClock :=
  { clock with
      deviceToIdentity := clock.deviceToIdentity.insert peer logicalPk
      peerOffsets := clock.peerOffsets.insert logicalPk [sample] }

def updatePeerOffsetWeighted (clock : NetworkClock) (peer : PhysicalDevicePk)
    (logicalPk : LogicalIdentityPk) (offset : Int) (weight : Nat) : Checked NetworkClock :=
  (clock.recordSample peer logicalPk (offset, weight)).recalculateConsensus

/-- A device that is an identity of its own. -/
def updatePeerOffset (clock : NetworkClock) (peer : PhysicalDevicePk) (offset : Int) :
    Checked NetworkClock :=
  clock.updatePeerOffsetWeighted peer peer.toLogical offset 1

def new : NetworkClock := ⟨.empty, .empty, 0, ClockFloat.ofI64 0⟩

/-- A sample that a device reports for an identity. -/
structure Report where
  peer : PhysicalDevicePk
  logicalPk : LogicalIdentityPk
  offset : BitVec 64
  weight : BitVec 32
  deriving DecidableEq

def Report.sample (report : Report) : Sample := (report.offset.toInt, report.weight.toNat)

def step (clock : NetworkClock) (report : Report) : Checked NetworkClock :=
  clock.updatePeerOffsetWeighted report.peer report.logicalPk report.offset.toInt
    report.weight.toNat

/-- The clock after a list of reports. -/
def run (reports : List Report) : NetworkClock :=
  reports.foldl (fun clock report => (clock.step report).value) .new

end NetworkClock

end MerkleTox.Core
