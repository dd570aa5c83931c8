import Mathlib.Data.Finset.Card
import MerkleTox.Sequenced.Reassembly

/-! # Outgoing messages

A message being sent: its fragments, which of them are acknowledged, and the
queues of fragments in flight and to be retransmitted. Floating-point
computations are taken as parameters; no statement here depends on them.

An acknowledgement only changes what its base index and mask name
(`OutgoingMessage.acked_onAck`), and the counter of acknowledged fragments
counts the bits of the set (`OutgoingMessage.AcksCounted`).
-/

namespace MerkleTox.Sequenced

open Proto

/-- A delivery rate in bytes per second, kept as the quotient it is computed from. -/
structure DeliveryRate where
  bytes : Nat
  duration : Duration

/-- The `f32` computations of the transport. -/
class FloatOps where
  /-- `Duration::mul_f32`. -/
  mulF32 : Duration → Rat → Duration
  /-- `current_rate > rate` for two delivery rates. -/
  rateGt : DeliveryRate → DeliveryRate → Bool
  /-- `(last_emitted_cwnd as f32 * 0.1).max(1.0) as usize`. -/
  cwndThreshold : Nat → Nat

structure FragmentDeliveryInfo where
  deliveredAtSend : Nat
  deliveryTimeAtSend : Instant
  firstSentTime : Instant
  size : Nat
  appLimited : Bool

structure FragmentState where
  lastSent : Option Instant
  deliveryInfo : Option FragmentDeliveryInfo
  retransmitCount : Nat
  rtoBackoff : Nat

instance : Inhabited FragmentState := ⟨⟨none, none, 0, 0⟩⟩

/-- The sample of the fastest fragment of an acknowledgement. -/
structure RateSample where
  deliveredAtSend : Nat
  deliveryTimeAtSend : Instant
  rate : DeliveryRate
  appLimited : Bool

structure AckResult where
  newlyDeliveredBytes : Nat
  newlyCompletedInFlightBytes : Nat
  minRtt : Option Duration
  firstRtt : Option Duration
  lossDetected : Bool
  deliverySample : Option RateSample

structure OutgoingMessage where
  messageType : MessageType
  data : Bytes
  payloadMtu : Nat
  numFragments : Nat
  ackedBitset : BitSet bitsetWords
  ackedCount : Nat
  highestCumulativeAck : Nat
  nextFragment : Nat
  retransmitQueue : List Nat
  retransmitBitset : BitSet bitsetWords
  inFlightQueue : List (Nat × Instant)
  fragmentStates : List FragmentState
  createdAt : Instant
  lastAckAt : Instant
  timeout : Duration
  dupAckCount : Nat
  lastAckBase : Nat
  highestSentTimeAcked : Option Instant

/-- The mutable locals of `on_ack`: the message, the fragments to remove from the
in-flight queue and the result under construction. -/
structure AckWork where
  msg : OutgoingMessage
  toRemove : BitSet bitsetWords
  needsCleanup : Bool
  res : AckResult

namespace OutgoingMessage

/-- `data.len().div_ceil(payload_mtu) as u16`. -/
def countFragments (data : Bytes) (payloadMtu : Nat) : Nat :=
  (if data.isEmpty then 0 else (data.length + payloadMtu - 1) / payloadMtu) % 2 ^ 16

def new (messageType : MessageType) (data : Bytes) (payloadMtu : Nat) (now : Instant) :
    Except SequencedError OutgoingMessage :=
  let numFragments := countFragments data payloadMtu
  if maxFragmentsPerMessage < numFragments then .error .messageTooLarge
  else .ok
    { messageType := messageType
      data := data
      payloadMtu := payloadMtu
      numFragments := numFragments
      ackedBitset := .new
      ackedCount := 0
      highestCumulativeAck := 0
      nextFragment := 0
      retransmitQueue := []
      retransmitBitset := .new
      inFlightQueue := []
      fragmentStates := List.replicate numFragments ⟨none, none, 0, 0⟩
      createdAt := now
      lastAckAt := now
      timeout := fromSecs 30
      dupAckCount := 0
      lastAckBase := 0
      highestSentTimeAcked := none }

variable (msg : OutgoingMessage)

/-- `fragment_states[idx]`; every access of the source is below `numFragments`. -/
def fragmentState (idx : Nat) : FragmentState :=
  msg.fragmentStates[idx]?.getD default

def isAcked (idx : Nat) : Bool :=
  if msg.numFragments ≤ idx then true else msg.ackedBitset.get idx

def allAcked : Bool := msg.ackedCount == msg.numFragments

def fragmentLen (idx : Nat) : Nat :=
  if msg.numFragments ≤ idx then 0
  else
    let start := idx * msg.payloadMtu
    min (start + msg.payloadMtu) msg.data.length - start

def getFragment (idx : Nat) : Bytes :=
  if msg.numFragments ≤ idx then []
  else
    let start := idx * msg.payloadMtu
    (msg.data.drop start).take (min (start + msg.payloadMtu) msg.data.length - start)

/-- The effects of a fragment accepted by the transport; the answer is whether it
was in flight before. -/
def markFragmentSent (idx : Nat) (now : Instant) (deliveredBytes : Nat) (lastDeliveryTime : Instant)
    (appLimited : Bool) (fragmentSize : Nat) :
    Bool × OutgoingMessage :=
  let state := msg.fragmentState idx
  let state :=
    if state.deliveryInfo.isSome then { state with retransmitCount := state.retransmitCount + 1 }
    else { state with
      deliveryInfo := some ⟨deliveredBytes, lastDeliveryTime, now, fragmentSize, appLimited⟩ }
  ((msg.fragmentState idx).lastSent.isSome,
    { msg with
      fragmentStates := msg.fragmentStates.set idx { state with lastSent := some now }
      inFlightQueue := msg.inFlightQueue ++ [(idx, now)] })

/-- The zeros of the acknowledged set in `[curr, limit)`, in order. -/
def zerosFrom (acked : BitSet bitsetWords) (limit : Nat) : Nat → Nat → List Nat
  | 0, _ => []
  | rounds + 1, curr =>
      match acked.nextZero curr limit with
      | none => []
      | some idx => idx :: zerosFrom acked limit rounds (idx + 1)

/-- The fragments an acknowledgement newly names. The loop over `temp_mask`
visits the set bits from the lowest to the highest; the index is a `u16` sum. -/
def collectAckedIndices (baseIndex : Nat) (bitmask : BitVec 64) : List Nat × OutgoingMessage :=
  let limit := min baseIndex msg.numFragments
  let cumulative := zerosFrom msg.ackedBitset limit limit msg.highestCumulativeAck
  let selective := ((List.range 64).filter bitmask.getLsbD).filterMap fun i =>
    let idx := (baseIndex + 1 + i) % 2 ^ 16
    if idx < msg.numFragments ∧ !msg.ackedBitset.get idx then some idx else none
  (cumulative ++ selective,
    { msg with highestCumulativeAck := max msg.highestCumulativeAck baseIndex })

def cleanupInFlightQueue (toRemove : BitSet bitsetWords) : Nat × OutgoingMessage :=
  let (removed, _) := msg.inFlightQueue.foldl
    (fun (acc : Nat × BitSet bitsetWords) entry =>
      if toRemove.get entry.1 ∧ entry.1 < msg.numFragments then
        let (fresh, counted) := acc.2.set entry.1
        (if fresh then acc.1 + msg.fragmentLen entry.1 else acc.1, counted)
      else acc)
    (0, .new)
  (removed,
    { msg with inFlightQueue := msg.inFlightQueue.filter fun entry => !toRemove.get entry.1 })

end OutgoingMessage

namespace AckWork

def markForRemoval (work : AckWork) (idx : Nat) : AckWork :=
  if idx < maxFragmentsPerMessage then
    { work with toRemove := (work.toRemove.set idx).2, needsCleanup := true }
  else work

/-- Queue a fragment for retransmission and take it out of flight. -/
def triggerLoss (work : AckWork) (idx : Nat) : AckWork :=
  let msg := work.msg
  let state := msg.fragmentState idx
  let queued := { work with msg := { msg with
    retransmitQueue := msg.retransmitQueue ++ [idx]
    retransmitBitset := (msg.retransmitBitset.set idx).2
    fragmentStates := msg.fragmentStates.set idx { state with lastSent := none } } }
  let marked := if state.lastSent.isSome then queued.markForRemoval idx else queued
  { marked with res := { marked.res with lossDetected := true } }

variable [FloatOps]

def updateDeliverySample (work : AckWork) (info : FragmentDeliveryInfo)
    (totalDeliveredBytes : Nat) (now : Instant) : AckWork :=
  let duration := durationSince now info.deliveryTimeAtSend
  if duration = 0 then work
  else
    let delivered := totalDeliveredBytes + work.res.newlyDeliveredBytes - info.deliveredAtSend
    let rate : DeliveryRate := ⟨delivered, duration⟩
    if work.res.deliverySample.all fun sample => FloatOps.rateGt rate sample.rate then
      let sample := ⟨info.deliveredAtSend, info.deliveryTimeAtSend, rate, info.appLimited⟩
      { work with res := { work.res with deliverySample := some sample } }
    else work

/-- The accounting of a fragment that was sent and is now acknowledged. -/
def recordDelivery (work : AckWork) (idx : Nat) (state : FragmentState)
    (info : FragmentDeliveryInfo) (now : Instant) (totalDeliveredBytes : Nat) : AckWork :=
  let work := { work with res := { work.res with
    newlyDeliveredBytes := work.res.newlyDeliveredBytes + info.size } }
  let work := if state.lastSent.isSome then work.markForRemoval idx else work
  let work := work.updateDeliverySample info totalDeliveredBytes now
  if 0 < state.retransmitCount then work
  else
    let rtt := durationSince now info.firstSentTime
    { work with res := { work.res with
      firstRtt := some (work.res.firstRtt.getD rtt)
      minRtt := if work.res.minRtt.all fun m => rtt < m then some rtt else work.res.minRtt } }

/-- Process one acknowledged index; the answer is whether it is new. -/
def processSingleAck (work : AckWork) (idx : Nat) (now : Instant) (totalDeliveredBytes : Nat) :
    Bool × AckWork :=
  let msg := work.msg
  if msg.numFragments ≤ idx then (false, work)
  else
    let (fresh, acked) := msg.ackedBitset.set idx
    if fresh then
      let state := msg.fragmentState idx
      let work := { work with msg := { msg with
        ackedBitset := acked
        ackedCount := msg.ackedCount + 1
        highestSentTimeAcked := match state.lastSent with
          | some ls => if msg.highestSentTimeAcked.all fun m => m < ls then some ls
              else msg.highestSentTimeAcked
          | none => msg.highestSentTimeAcked
        fragmentStates := msg.fragmentStates.set idx { state with lastSent := none } } }
      match state.deliveryInfo with
      | some info => (true, work.recordDelivery idx state info now totalDeliveredBytes)
      | none => (true, work)
    else (false, { work with msg := { msg with ackedBitset := acked } })

/-- The loop over the acknowledged indices; the answer is `any_newly_acked`. -/
def processAcks (now : Instant) (totalDeliveredBytes : Nat) : List Nat → AckWork → Bool × AckWork
  | [], work => (false, work)
  | idx :: rest, work =>
      let (fresh, work) := work.processSingleAck idx now totalDeliveredBytes
      let (anyFresh, work) := processAcks now totalDeliveredBytes rest work
      (fresh || anyFresh, work)

def handleFastRetransmit (work : AckWork) (baseIndex : Nat) : AckWork :=
  let msg := work.msg
  if baseIndex = msg.lastAckBase ∧ baseIndex < msg.numFragments then
    let msg : OutgoingMessage := { msg with dupAckCount := msg.dupAckCount + 1 }
    let work : AckWork := { work with msg := msg }
    let shouldTrigger : Bool := (msg.fragmentState baseIndex).lastSent.any fun this =>
      msg.highestSentTimeAcked.all fun acked => this ≤ acked
    if msg.dupAckCount = 3 ∧ !msg.isAcked baseIndex ∧ !msg.retransmitBitset.get baseIndex ∧
        shouldTrigger then
      work.triggerLoss baseIndex
    else work
  else work

/-- One round of the hole scan; the number is `acked_so_far`. -/
def detectLossAt (maxSent : Option Instant) (ackedCount : Nat) (acc : Nat × AckWork) (idx : Nat) :
    Nat × AckWork :=
  let (ackedSoFar, work) := acc
  let msg := work.msg
  let shouldTrigger : Bool := (msg.fragmentState idx).lastSent.any fun this =>
    maxSent.any fun acked => this ≤ acked
  if msg.ackedBitset.get idx then (ackedSoFar + 1, work)
  else if !msg.retransmitBitset.get idx ∧ 3 ≤ ackedCount - ackedSoFar ∧ shouldTrigger then
    (ackedSoFar, work.triggerLoss idx)
  else (ackedSoFar, work)

/-- Any fragment with at least three later ones acknowledged counts as lost. -/
def detectLossesFromHoles (work : AckWork) : AckWork :=
  let msg := work.msg
  let start := msg.highestCumulativeAck
  let searchLimit := ((msg.ackedBitset.lastOne msg.numFragments).map (· + 1)).getD 0
  ((List.range' start (searchLimit - start)).foldl
    (detectLossAt msg.highestSentTimeAcked msg.ackedCount) (start, work)).2

end AckWork

namespace OutgoingMessage

/-- Drop acknowledged fragments from the retransmit queue and rebuild its bit set. -/
def pruneRetransmits (msg : OutgoingMessage) : OutgoingMessage :=
  let queue := msg.retransmitQueue.filter fun idx =>
    decide (idx < msg.numFragments) && !msg.ackedBitset.get idx
  { msg with
    retransmitQueue := queue
    retransmitBitset := queue.foldl (fun bits idx => (bits.set idx).2) .new }

/-- The end of `on_ack`: the hole scan and the clean-up of the two queues. -/
def finishAck (work : AckWork) (anyNewlyAcked : Bool) : AckResult × OutgoingMessage :=
  let work := work.detectLossesFromHoles
  let msg := if anyNewlyAcked then work.msg.pruneRetransmits else work.msg
  if work.needsCleanup then
    let (removed, msg) := msg.cleanupInFlightQueue work.toRemove
    ({ work.res with newlyCompletedInFlightBytes := removed }, msg)
  else (work.res, msg)

def onAck [FloatOps] (msg : OutgoingMessage) (baseIndex : Nat) (bitmask : BitVec 64)
    (now : Instant) (totalDeliveredBytes : Nat) : AckResult × OutgoingMessage :=
  let msg := { msg with lastAckAt := now }
  let (indices, msg) := msg.collectAckedIndices baseIndex bitmask
  let work : AckWork := ⟨msg, .new, false, ⟨0, 0, none, none, false, none⟩⟩
  let (anyNewlyAcked, work) := work.processAcks now totalDeliveredBytes indices
  let work :=
    if work.msg.lastAckBase < baseIndex then
      { work with msg := { work.msg with
        lastAckBase := baseIndex, dupAckCount := 0, lastAckAt := now } }
    else if anyNewlyAcked then
      let work := work.handleFastRetransmit baseIndex
      { work with msg := { work.msg with lastAckAt := now } }
    else work
  finishAck work anyNewlyAcked

/-- What is fixed when a message is queued. -/
def content (msg : OutgoingMessage) : MessageType × Bytes × Nat × Nat :=
  (msg.messageType, msg.data, msg.payloadMtu, msg.numFragments)

/-- The content together with the record of acknowledgements. -/
def ackView (msg : OutgoingMessage) :
    (MessageType × Bytes × Nat × Nat) × BitSet bitsetWords × Nat :=
  (msg.content, msg.ackedBitset, msg.ackedCount)

/-- The acknowledged indices are fragments, and the counter counts them. -/
structure AcksCounted (msg : OutgoingMessage) : Prop where
  num_le : msg.numFragments ≤ maxFragmentsPerMessage
  acked_lt : ∀ idx, msg.ackedBitset.get idx = true → idx < msg.numFragments
  count_eq : msg.ackedCount =
    ((Finset.range msg.numFragments).filter fun idx => msg.ackedBitset.get idx = true).card

variable {msg msg' : OutgoingMessage}

theorem content_eq_of_ackView_eq (h : msg'.ackView = msg.ackView) : msg'.content = msg.content :=
  congrArg Prod.fst h

theorem AcksCounted.of_ackView_eq (hcounted : msg.AcksCounted) (h : msg'.ackView = msg.ackView) :
    msg'.AcksCounted := by
  simp only [ackView, content, Prod.mk.injEq] at h
  obtain ⟨⟨-, -, -, hnum⟩, hbits, hcount⟩ := h
  refine ⟨?_, ?_, ?_⟩
  · rw [hnum]
    exact hcounted.num_le
  · rw [hnum, hbits]
    exact hcounted.acked_lt
  · rw [hnum, hbits, hcount]
    exact hcounted.count_eq

/-- When the counter has reached the number of fragments, every fragment is acknowledged. -/
theorem AcksCounted.all_acked {msg : OutgoingMessage} (hcounted : msg.AcksCounted)
    (hall : msg.allAcked = true) : ∀ idx < msg.numFragments, msg.ackedBitset.get idx = true := by
  rw [allAcked, beq_iff_eq, hcounted.count_eq] at hall
  have hfilter : (Finset.range msg.numFragments).filter
      (fun idx => msg.ackedBitset.get idx = true) = Finset.range msg.numFragments := by
    apply Finset.eq_of_subset_of_card_le (Finset.filter_subset _ _)
    rw [hall, Finset.card_range]
  intro idx hidx
  have hmem : idx ∈ (Finset.range msg.numFragments).filter
      (fun idx => msg.ackedBitset.get idx = true) := by
    rw [hfilter]
    exact Finset.mem_range.mpr hidx
  exact (Finset.mem_filter.mp hmem).2

theorem AcksCounted.exists_unacked {msg : OutgoingMessage} (hcounted : msg.AcksCounted)
    (hall : msg.allAcked = false) : ∃ idx, msg.isAcked idx = false := by
  by_contra hnone
  have hfilter : (Finset.range msg.numFragments).filter
      (fun idx => msg.ackedBitset.get idx = true) = Finset.range msg.numFragments := by
    refine Finset.filter_true_of_mem fun idx hidx => ?_
    by_contra hunacked
    refine hnone ⟨idx, ?_⟩
    rw [isAcked, if_neg (Nat.not_le.mpr (Finset.mem_range.mp hidx))]
    exact Bool.not_eq_true _ ▸ hunacked
  rw [allAcked, hcounted.count_eq, hfilter, Finset.card_range, beq_self_eq_true] at hall
  exact absurd hall nofun

end OutgoingMessage

namespace AckWork

variable (work : AckWork)

theorem msg_markForRemoval (idx : Nat) :
    (work.markForRemoval idx).msg = work.msg := by
  unfold markForRemoval
  split <;> rfl

theorem ackView_triggerLoss (idx : Nat) :
    (work.triggerLoss idx).msg.ackView = work.msg.ackView := by
  simp only [triggerLoss]
  split
  next => rw [msg_markForRemoval]; rfl
  next => rfl

theorem ackView_handleFastRetransmit (baseIndex : Nat) :
    (work.handleFastRetransmit baseIndex).msg.ackView = work.msg.ackView := by
  simp only [handleFastRetransmit]
  split
  next =>
    split
    next => rw [ackView_triggerLoss]; rfl
    next => rfl
  next => rfl

theorem ackView_detectLossAt (maxSent : Option Instant) (ackedCount : Nat) (acc : Nat × AckWork)
    (idx : Nat) : (detectLossAt maxSent ackedCount acc idx).2.msg.ackView = acc.2.msg.ackView := by
  simp only [detectLossAt]
  split
  next => rfl
  next =>
    split
    next => exact ackView_triggerLoss _ _
    next => rfl

/-- What every round of the hole scan keeps, the scan keeps. -/
theorem detectLossesFromHoles_keeps (holds : AckWork → Prop) (hwork : holds work)
    (hround : ∀ maxSent ackedCount acc idx, holds acc.2 →
      holds (detectLossAt maxSent ackedCount acc idx).2) : holds work.detectLossesFromHoles :=
  List.foldlRecOn (motive := fun acc : Nat × AckWork => holds acc.2) _ _ hwork
    fun acc hacc idx _ => hround _ _ acc idx hacc

theorem ackView_detectLossesFromHoles :
    work.detectLossesFromHoles.msg.ackView = work.msg.ackView :=
  work.detectLossesFromHoles_keeps (fun after => after.msg.ackView = work.msg.ackView) rfl
    fun maxSent ackedCount acc idx hacc =>
      (ackView_detectLossAt maxSent ackedCount acc idx).trans hacc

variable [FloatOps]

theorem msg_updateDeliverySample (info : FragmentDeliveryInfo) (total : Nat)
    (now : Instant) : (work.updateDeliverySample info total now).msg = work.msg := by
  simp only [updateDeliverySample]
  split
  next => rfl
  next => split <;> rfl

theorem msg_recordDelivery (idx : Nat) (state : FragmentState)
    (info : FragmentDeliveryInfo) (now : Instant) (total : Nat) :
    (work.recordDelivery idx state info now total).msg = work.msg := by
  simp only [recordDelivery]
  split
  next =>
    rw [msg_updateDeliverySample]
    split
    next => exact msg_markForRemoval _ _
    next => rfl
  next =>
    rw [msg_updateDeliverySample]
    split
    next => exact msg_markForRemoval _ _
    next => rfl

/-- One acknowledged index changes at most its own bit, and the counter with it. -/
theorem processSingleAck_spec (idx : Nat) (now : Instant) (total : Nat)
    (hcounted : work.msg.AcksCounted) :
    (work.processSingleAck idx now total).2.msg.content = work.msg.content ∧
      (work.processSingleAck idx now total).2.msg.AcksCounted ∧
      ∀ other, (work.processSingleAck idx now total).2.msg.ackedBitset.get other = true →
        work.msg.ackedBitset.get other = true ∨ other = idx := by
  by_cases hrange : work.msg.numFragments ≤ idx
  · have hsame : work.processSingleAck idx now total = (false, work) := by
      simp [processSingleAck, hrange]
    rw [hsame]
    exact ⟨rfl, hcounted, fun _ h => .inl h⟩
  have hlt := Nat.not_le.mp hrange
  have hcapacity : idx < bitsetWords * 64 := lt_of_lt_of_le hlt hcounted.num_le
  have hget : ∀ other, (work.msg.ackedBitset.set idx).2.get other = true ↔
      work.msg.ackedBitset.get other = true ∨ other = idx := by
    intro other
    simp [BitSet.get_set, hcapacity]
  have hfst := work.msg.ackedBitset.set_fst idx
  by_cases hfresh : work.msg.ackedBitset.get idx = true
  · -- the bit was set before, so nothing changes
    have hstale : (work.msg.ackedBitset.set idx).1 = false := by simp [hfst, hfresh]
    have hsame : ∀ other, (work.msg.ackedBitset.set idx).2.get other = true ↔
        work.msg.ackedBitset.get other = true := by
      intro other
      rw [hget]
      constructor
      · rintro (h | h)
        · exact h
        · exact h ▸ hfresh
      · exact .inl
    simp only [processSingleAck, hrange, if_false, hstale, Bool.false_eq_true]
    refine ⟨rfl, ⟨hcounted.num_le, ?_, ?_⟩, ?_⟩
    · intro other hother
      exact hcounted.acked_lt other ((hsame other).mp hother)
    · simp only [hsame]
      exact hcounted.count_eq
    · intro other hother
      exact .inl ((hsame other).mp hother)
  · have hnew : (work.msg.ackedBitset.set idx).1 = true := by
      simp [hfst, hcapacity, Bool.eq_false_of_not_eq_true hfresh]
    have hcard : ((Finset.range work.msg.numFragments).filter fun other =>
        (work.msg.ackedBitset.set idx).2.get other = true).card = work.msg.ackedCount + 1 := by
      have hinsert : (Finset.range work.msg.numFragments).filter (fun other =>
          (work.msg.ackedBitset.set idx).2.get other = true) =
          insert idx ((Finset.range work.msg.numFragments).filter fun other =>
            work.msg.ackedBitset.get other = true) := by
        ext other
        simp only [Finset.mem_filter, Finset.mem_range, Finset.mem_insert, hget]
        constructor
        · rintro ⟨hother, h | h⟩
          · exact .inr ⟨hother, h⟩
          · exact .inl h
        · rintro (rfl | ⟨hother, h⟩)
          · exact ⟨hlt, .inr rfl⟩
          · exact ⟨hother, .inl h⟩
      rw [hinsert, Finset.card_insert_of_notMem, hcounted.count_eq]
      simp [hfresh]
    have hcounted' : ∀ msg' : OutgoingMessage, msg'.numFragments = work.msg.numFragments →
        msg'.ackedBitset = (work.msg.ackedBitset.set idx).2 →
        msg'.ackedCount = work.msg.ackedCount + 1 → msg'.AcksCounted := by
      intro msg' hnum hbits hcount
      refine ⟨hnum ▸ hcounted.num_le, ?_, ?_⟩
      · intro other hother
        rw [hbits, hget] at hother
        rw [hnum]
        rcases hother with h | h
        · exact hcounted.acked_lt other h
        · exact h ▸ hlt
      · rw [hcount, hnum, hbits, hcard]
    simp only [processSingleAck, hrange, if_false, hnew, if_true]
    split
    next =>
      simp only [msg_recordDelivery]
      exact ⟨rfl, hcounted' _ rfl rfl rfl, fun other hother => (hget other).mp hother⟩
    next => exact ⟨rfl, hcounted' _ rfl rfl rfl, fun other hother => (hget other).mp hother⟩

/-- The run form of `processSingleAck_spec`, by induction on the indices. -/
theorem processAcks_spec (now : Instant) (total : Nat) (indices : List Nat) (work : AckWork)
    (hcounted : work.msg.AcksCounted) :
    (processAcks now total indices work).2.msg.content = work.msg.content ∧
      (processAcks now total indices work).2.msg.AcksCounted ∧
      ∀ other, (processAcks now total indices work).2.msg.ackedBitset.get other = true →
        work.msg.ackedBitset.get other = true ∨ other ∈ indices := by
  induction indices generalizing work with
  | nil => exact ⟨rfl, hcounted, fun _ h => .inl h⟩
  | cons idx rest ih =>
      obtain ⟨hcontent, hcounted', hacked⟩ := work.processSingleAck_spec idx now total hcounted
      obtain ⟨hcontentRest, hcountedRest, hackedRest⟩ := ih _ hcounted'
      refine ⟨hcontentRest.trans hcontent, hcountedRest, ?_⟩
      intro other hother
      rcases hackedRest other hother with h | h
      · rcases hacked other h with h | h
        · exact .inl h
        · exact .inr (h ▸ List.mem_cons_self)
      · exact .inr (List.mem_cons_of_mem _ h)

end AckWork

/-- An acknowledgement names a fragment: it lies below the base, or its bit is set. -/
def SelectiveAck.Names (ack : SelectiveAck) (idx : Nat) : Prop :=
  idx < ack.baseIndex ∨
    ∃ i < 64, ack.bitmask.getLsbD i = true ∧ idx = (ack.baseIndex + 1 + i) % 2 ^ 16

namespace OutgoingMessage

theorem zerosFrom_lt {acked : BitSet bitsetWords} {limit rounds curr idx : Nat}
    (hidx : idx ∈ zerosFrom acked limit rounds curr) : idx < limit := by
  induction rounds generalizing curr with
  | zero => simp [zerosFrom] at hidx
  | succ rounds ih =>
      unfold zerosFrom at hidx
      split at hidx
      next => simp at hidx
      next found hfound =>
        rcases List.mem_cons.mp hidx with heq | hrest
        · exact heq ▸ (BitSet.nextZero_bounds hfound).2
        · exact ih hrest

theorem collectAckedIndices_names (msg : OutgoingMessage) (ack : SelectiveAck) {idx : Nat}
    (hidx : idx ∈ (msg.collectAckedIndices ack.baseIndex ack.bitmask).1) : ack.Names idx := by
  simp only [collectAckedIndices, List.mem_append] at hidx
  rcases hidx with hcumulative | hselective
  · exact .inl (lt_of_lt_of_le (zerosFrom_lt hcumulative) (Nat.min_le_left _ _))
  · obtain ⟨i, hi, hsome⟩ := List.mem_filterMap.mp hselective
    obtain ⟨hrange, hbit⟩ := List.mem_filter.mp hi
    split at hsome
    · simp only [Option.some.injEq] at hsome
      exact .inr ⟨i, List.mem_range.mp hrange, hbit, hsome.symm⟩
    · simp at hsome

theorem ackView_finishAck (work : AckWork) (anyNewlyAcked : Bool) :
    (finishAck work anyNewlyAcked).2.ackView = work.msg.ackView := by
  rw [← AckWork.ackView_detectLossesFromHoles work]
  simp only [finishAck]
  split <;> split <;> rfl

/-- An acknowledgement keeps the content and the counting, and newly acknowledges
only fragments it names. -/
theorem onAck_spec [FloatOps] (msg : OutgoingMessage) (ack : SelectiveAck) (now : Instant)
    (total : Nat) (hcounted : msg.AcksCounted) :
    (msg.onAck ack.baseIndex ack.bitmask now total).2.content = msg.content ∧
      (msg.onAck ack.baseIndex ack.bitmask now total).2.AcksCounted ∧
      ∀ idx, (msg.onAck ack.baseIndex ack.bitmask now total).2.ackedBitset.get idx = true →
        msg.ackedBitset.get idx = true ∨ ack.Names idx := by
  set touched : OutgoingMessage := { msg with lastAckAt := now } with htouched
  set collected := touched.collectAckedIndices ack.baseIndex ack.bitmask with hcollected
  set work : AckWork := ⟨collected.2, .new, false, ⟨0, 0, none, none, false, none⟩⟩ with hwork
  have hview : work.msg.ackView = msg.ackView := rfl
  obtain ⟨hcontent, hcounted', hacked⟩ :=
    AckWork.processAcks_spec now total collected.1 work (hcounted.of_ackView_eq hview)
  -- everything behind the loop leaves the acknowledgement view alone
  have hrest : (msg.onAck ack.baseIndex ack.bitmask now total).2.ackView =
      (AckWork.processAcks now total collected.1 work).2.msg.ackView := by
    simp only [onAck, ← htouched, ← hcollected, ← hwork]
    generalize AckWork.processAcks now total collected.1 work = processed
    rw [ackView_finishAck]
    split
    next => rfl
    next =>
      split
      next => exact AckWork.ackView_handleFastRetransmit _ _
      next => rfl
  refine ⟨(content_eq_of_ackView_eq hrest).trans hcontent, hcounted'.of_ackView_eq hrest, ?_⟩
  intro idx hidx
  have hbits : (msg.onAck ack.baseIndex ack.bitmask now total).2.ackedBitset =
      (AckWork.processAcks now total collected.1 work).2.msg.ackedBitset :=
    congrArg (fun view => view.2.1) hrest
  rw [hbits] at hidx
  rcases hacked idx hidx with h | h
  · exact .inl h
  · exact .inr (collectAckedIndices_names touched ack h)

/-- The slice of a message at a fragment index. -/
def fragmentOf (data : Bytes) (payloadMtu idx : Nat) : Bytes :=
  (data.drop (idx * payloadMtu)).take payloadMtu

theorem flatten_fragmentOf_eq_take (data : Bytes) (payloadMtu count : Nat) :
    ((List.range count).map (fragmentOf data payloadMtu)).flatten =
      data.take (count * payloadMtu) := by
  induction count with
  | zero => simp
  | succ count ih =>
      rw [List.range_succ, List.map_append, List.flatten_append, ih, Nat.succ_mul, List.take_add]
      simp [fragmentOf]

variable {data : Bytes} {msg : OutgoingMessage}

/-- Enough fragments, put back together in order, are the message. -/
theorem flatten_fragmentOf {payloadMtu count : Nat} (hcover : data.length ≤ count * payloadMtu) :
    ((List.range count).map (fragmentOf data payloadMtu)).flatten = data := by
  rw [flatten_fragmentOf_eq_take, List.take_of_length_le hcover]

/-- When the fragments cover the message, the bounds checks of `get_fragment` do not matter. -/
theorem getFragment_eq (hcover : msg.data.length ≤ msg.numFragments * msg.payloadMtu) (idx : Nat) :
    msg.getFragment idx = fragmentOf msg.data msg.payloadMtu idx := by
  unfold getFragment fragmentOf
  split
  next hout =>
    have hmul := Nat.mul_le_mul_right msg.payloadMtu hout
    rw [List.drop_of_length_le (hcover.trans hmul), List.take_nil]
  next =>
    dsimp only
    rw [List.take_eq_take_iff, List.length_drop]
    omega

/-- The payload bytes of a full data packet. -/
def defaultPayloadMtu : Nat := maxToxPacketSize - packetOverhead

/-- A non-empty message of admissible size has at least one fragment, and its
fragments cover it. -/
theorem countFragments_spec (hpos : 0 < data.length) (hsize : data.length ≤ maxMessageSize) :
    data.length ≤ countFragments data defaultPayloadMtu * defaultPayloadMtu ∧
      0 < countFragments data defaultPayloadMtu := by
  have hne : data.isEmpty = false := by
    cases data with
    | nil => simp at hpos
    | cons => rfl
  simp only [countFragments, hne, defaultPayloadMtu, maxToxPacketSize, packetOverhead,
    maxMessageSize, Bool.false_eq_true, if_false] at *
  omega

theorem new_spec {messageType : MessageType} {mtu : Nat} {now : Instant}
    (hnew : new messageType data mtu now = .ok msg) :
    msg.content = (messageType, data, mtu, countFragments data mtu) ∧ msg.AcksCounted ∧
      ∀ idx, msg.ackedBitset.get idx = false := by
  simp only [new] at hnew
  split at hnew
  next => cases hnew
  next hle =>
    cases hnew
    refine ⟨rfl, ⟨Nat.not_lt.mp hle, ?_, ?_⟩, ?_⟩
    · simp
    · simp
    · simp

end OutgoingMessage

end MerkleTox.Sequenced
