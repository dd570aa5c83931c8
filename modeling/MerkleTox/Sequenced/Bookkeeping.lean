import MerkleTox.Sequenced.BitQueries
import MerkleTox.Sequenced.SelectiveAcks
import MerkleTox.Sequenced.Updates

/-! # The books of an outgoing message

The counter of acknowledgements, the highest base index, the retransmit queue and its bit set
are kept side by side and updated by different operations. They agree in every state that sends,
acknowledgements, requests, losses and timeouts lead to.
-/

namespace MerkleTox.Sequenced

open Proto Library

variable {idx delivered : Nat}

namespace OutgoingMessage

/-- The retransmit queue holds each fragment once, and its bit set is the set of them. -/
structure QueueBooked (msg : OutgoingMessage) : Prop where
  nodup : msg.retransmitQueue.Nodup
  marked : ∀ idx, msg.retransmitBitset.get idx = true ↔ idx ∈ msg.retransmitQueue

/-- What one counter, one index and the two sets of a message say about each other. -/
structure Booked (msg : OutgoingMessage) : Prop where
  acked : ∀ idx, msg.ackedBitset.get idx = true → idx < msg.numFragments
  count : msg.ackedCount = msg.ackedBitset.indices.card
  cumulative : ∀ idx < msg.highestCumulativeAck, msg.isAcked idx = true
  queue : msg.QueueBooked
  unacked : ∀ idx ∈ msg.retransmitQueue, msg.isAcked idx = false

/-- The operations on a message: a fragment is sent, taken from a queue or timed out, the message
is given another timeout, the peer asks for a fragment or acknowledges some. -/
inductive Step [FloatOps] : OutgoingMessage → OutgoingMessage → Prop
  | retimed (msg : OutgoingMessage) (timeout : Duration) : Step msg { msg with timeout := timeout }
  | sent (msg : OutgoingMessage) (idx : Nat) (now : Instant) (deliveredBytes : Nat)
      (lastDeliveryTime : Instant) (appLimited : Bool) (fragmentSize : Nat) :
      Step msg (msg.markFragmentSent idx now deliveredBytes lastDeliveryTime appLimited
        fragmentSize).2
  | retransmitted (msg : OutgoingMessage) : Step msg (FlushState.popRetransmit msg)
  | timedOut (msg : OutgoingMessage) (idx : Nat) : Step msg (FlushState.popInFlight idx msg)
  | advanced (msg : OutgoingMessage) : Step msg (FlushState.advanceNext msg)
  | nacked (work : SequenceSession.NackWork) (idx : Nat) :
      Step work.msg (SequenceSession.nackIndex work idx).msg
  | unqueued (msg : OutgoingMessage) (keep : Nat × Instant → Bool) :
      Step msg { msg with inFlightQueue := msg.inFlightQueue.filter keep }
  | acked (msg : OutgoingMessage) (baseIndex : Nat) (bitmask : BitVec 64) (now : Instant)
      (deliveredBytes : Nat) : Step msg (msg.onAck baseIndex bitmask now deliveredBytes).2

/-! ## The retransmit queue -/

variable {msg after : OutgoingMessage}

theorem QueueBooked.of_same (h : msg.QueueBooked)
    (hsame : (after.retransmitQueue, after.retransmitBitset) =
      (msg.retransmitQueue, msg.retransmitBitset)) : after.QueueBooked := by
  obtain ⟨hqueue, hbits⟩ := Prod.mk.inj hsame
  exact ⟨hqueue ▸ h.nodup, hqueue ▸ hbits ▸ h.marked⟩

/-- A fragment that is not marked joins the queue. -/
theorem QueueBooked.push (h : msg.QueueBooked) (hidx : idx < maxFragmentsPerMessage)
    (hclear : ¬ msg.retransmitBitset.get idx = true)
    (hqueue : after.retransmitQueue = msg.retransmitQueue ++ [idx])
    (hbits : after.retransmitBitset = (msg.retransmitBitset.set idx).2) : after.QueueBooked := by
  have hout : idx ∉ msg.retransmitQueue := fun hin => hclear ((h.marked idx).mpr hin)
  have hcapacity : idx < bitsetWords * 64 := hidx
  refine ⟨?_, fun other => ?_⟩
  · rw [hqueue]
    exact (List.perm_append_singleton idx _).nodup_iff.mpr (List.nodup_cons.mpr ⟨hout, h.nodup⟩)
  · rw [hbits, hqueue, BitSet.get_set, Bool.or_eq_true, Bool.and_eq_true, decide_eq_true_eq,
      decide_eq_true_eq, h.marked, List.mem_append, List.mem_singleton]
    exact or_congr_right (and_iff_left hcapacity)

theorem QueueBooked.popRetransmit {msg : OutgoingMessage} (h : msg.QueueBooked) :
    (FlushState.popRetransmit msg).QueueBooked := by
  unfold FlushState.popRetransmit
  split
  next => exact h
  next idx rest hqueue =>
    have hnodup := h.nodup
    rw [hqueue] at hnodup
    obtain ⟨hout, hrest⟩ := List.nodup_cons.mp hnodup
    refine ⟨hrest, fun other => ?_⟩
    rw [BitSet.get_unset, Bool.and_eq_true, Bool.not_eq_true', decide_eq_false_iff_not, h.marked,
      hqueue, List.mem_cons]
    constructor
    · exact fun ⟨hin, hne⟩ => hin.resolve_left hne
    · exact fun hin => ⟨.inr hin, fun heq => hout (heq ▸ hin)⟩

theorem get_foldl_set_iff {queue : List Nat} (hqueue : ∀ idx ∈ queue, idx < bitsetWords * 64)
    (bits : BitSet bitsetWords) (idx : Nat) :
    (queue.foldl (fun bits idx => (bits.set idx).2) bits).get idx = true ↔
      bits.get idx = true ∨ idx ∈ queue := by
  induction queue generalizing bits with
  | nil => simp
  | cons first rest ih =>
      rw [List.forall_mem_cons] at hqueue
      rw [List.foldl_cons, ih hqueue.2, BitSet.get_set, Bool.or_eq_true, Bool.and_eq_true,
        decide_eq_true_eq, decide_eq_true_eq, and_iff_left hqueue.1, List.mem_cons, or_assoc]

/-- The queue without the acknowledged fragments, and the bit set built from it. -/
theorem QueueBooked.pruneRetransmits {msg : OutgoingMessage} (h : msg.QueueBooked)
    (hnum : msg.numFragments ≤ maxFragmentsPerMessage) : msg.pruneRetransmits.QueueBooked := by
  refine ⟨h.nodup.filter _, fun idx => ?_⟩
  unfold OutgoingMessage.pruneRetransmits
  dsimp only
  rw [get_foldl_set_iff, BitSet.get_new]
  · exact ⟨fun hor => hor.resolve_left nofun, .inr⟩
  · intro other hother
    have hin := (List.mem_filter.mp hother).2
    rw [Bool.and_eq_true, decide_eq_true_eq] at hin
    exact Nat.lt_of_lt_of_le hin.1 hnum

end OutgoingMessage

namespace AckWork

open OutgoingMessage

/-- What looking for losses does to the retransmit queue. -/
structure Requeues (work after : AckWork) : Prop where
  ackView : after.msg.ackView = work.msg.ackView
  booked : work.msg.QueueBooked → after.msg.QueueBooked
  added : ∀ idx ∈ after.msg.retransmitQueue,
    idx ∈ work.msg.retransmitQueue ∨ work.msg.isAcked idx = false

variable {work middle after : AckWork}

theorem Requeues.of_same (hview : after.msg.ackView = work.msg.ackView)
    (hsame : (after.msg.retransmitQueue, after.msg.retransmitBitset) =
      (work.msg.retransmitQueue, work.msg.retransmitBitset)) : Requeues work after :=
  ⟨hview, fun h => h.of_same hsame, fun _ hin => .inl ((Prod.mk.inj hsame).1 ▸ hin)⟩

theorem Requeues.trans (h : Requeues work middle) (hnext : Requeues middle after) :
    Requeues work after := by
  refine ⟨hnext.ackView.trans h.ackView, fun hbooked => hnext.booked (h.booked hbooked), ?_⟩
  intro idx hin
  rcases hnext.added idx hin with hold | hclear
  · exact h.added idx hold
  · exact .inr (isAcked_congr h.ackView idx ▸ hclear)

theorem queue_triggerLoss (work : AckWork) (idx : Nat) :
    (work.triggerLoss idx).msg.retransmitQueue = work.msg.retransmitQueue ++ [idx] ∧
      (work.triggerLoss idx).msg.retransmitBitset = (work.msg.retransmitBitset.set idx).2 := by
  simp only [triggerLoss]
  split
  next => rw [msg_markForRemoval]; exact ⟨rfl, rfl⟩
  next => exact ⟨rfl, rfl⟩

theorem requeues_triggerLoss (hidx : idx < maxFragmentsPerMessage)
    (hclear : ¬ work.msg.retransmitBitset.get idx = true)
    (hunacked : work.msg.isAcked idx = false) : Requeues work (work.triggerLoss idx) := by
  obtain ⟨hqueue, hbits⟩ := work.queue_triggerLoss idx
  refine ⟨ackView_triggerLoss work idx, fun h => h.push hidx hclear hqueue hbits, fun other hin => ?_⟩
  rw [hqueue, List.mem_append, List.mem_singleton] at hin
  rcases hin with hold | rfl
  · exact .inl hold
  · exact .inr hunacked

theorem requeues_handleFastRetransmit (hnum : work.msg.numFragments ≤ maxFragmentsPerMessage)
    (baseIndex : Nat) : Requeues work (work.handleFastRetransmit baseIndex) := by
  simp only [handleFastRetransmit]
  split
  next hbase =>
    have hcounting : Requeues work
        { work with msg := { work.msg with dupAckCount := work.msg.dupAckCount + 1 } } :=
      .of_same rfl rfl
    split
    next htrigger =>
      obtain ⟨-, hunacked, hclear, -⟩ := htrigger
      refine hcounting.trans (requeues_triggerLoss (Nat.lt_of_lt_of_le hbase.2 hnum) ?_ ?_)
      · simpa using hclear
      · simpa using hunacked
    next => exact hcounting
  next => exact .of_same rfl rfl

theorem requeues_detectLossAt (maxSent : Option Instant) (ackedCount ackedSoFar : Nat)
    (hidx : idx < work.msg.numFragments) (hnum : work.msg.numFragments ≤ maxFragmentsPerMessage) :
    Requeues work (detectLossAt maxSent ackedCount (ackedSoFar, work) idx).2 := by
  simp only [detectLossAt]
  split
  next => exact .of_same rfl rfl
  next hunacked =>
    split
    next htrigger =>
      refine requeues_triggerLoss (Nat.lt_of_lt_of_le hidx hnum) (by simpa using htrigger.1) ?_
      exact isAcked_eq_false.mpr ⟨hidx, Bool.eq_false_of_not_eq_true hunacked⟩
    next => exact .of_same rfl rfl

theorem requeues_detectLossesFromHoles
    (hnum : work.msg.numFragments ≤ maxFragmentsPerMessage) :
    Requeues work work.detectLossesFromHoles := by
  simp only [detectLossesFromHoles]
  -- the scan ends behind the last acknowledged fragment
  have hindices : ∀ idx ∈ List.range' work.msg.highestCumulativeAck
      (((work.msg.ackedBitset.lastOne work.msg.numFragments).map (· + 1)).getD 0 -
        work.msg.highestCumulativeAck), idx < work.msg.numFragments := by
    intro idx hin
    have hrange := List.mem_range'_1.mp hin
    rw [BitSet.lastOne_eq] at hrange
    cases hlast : Library.lastIn work.msg.ackedBitset.indices work.msg.numFragments with
    | none =>
        rw [hlast, Option.map_none, Option.getD_none] at hrange
        omega
    | some last =>
        have hlt := Library.lastIn_lt hlast
        rw [hlast, Option.map_some, Option.getD_some] at hrange
        omega
  generalize List.range' _ _ = indices at hindices
  generalize work.msg.highestCumulativeAck = ackedSoFar
  generalize work.msg.highestSentTimeAcked = maxSent
  generalize work.msg.ackedCount = ackedCount
  induction indices generalizing work ackedSoFar with
  | nil => exact .of_same rfl rfl
  | cons idx rest ih =>
      rw [List.forall_mem_cons] at hindices
      have hfirst := requeues_detectLossAt maxSent ackedCount ackedSoFar hindices.1 hnum
      rw [List.foldl_cons]
      generalize hnext : detectLossAt maxSent ackedCount (ackedSoFar, work) idx = next at hfirst
      have hsame : next.2.msg.numFragments = work.msg.numFragments :=
        congrArg (fun view => view.1.2.2.2) hfirst.ackView
      exact hfirst.trans (ih (hsame ▸ hnum) (hsame ▸ hindices.2) next.1)

section Acks

variable [FloatOps]

/-- Acknowledging leaves the retransmit queue alone until its end, and the acknowledged set, too,
if nothing in it is new. -/
theorem processSingleAck_queue (work : AckWork) (idx : Nat) (now : Instant) (total : Nat) :
    ((work.processSingleAck idx now total).2.msg.retransmitQueue,
        (work.processSingleAck idx now total).2.msg.retransmitBitset) =
      (work.msg.retransmitQueue, work.msg.retransmitBitset) ∧
    ((work.processSingleAck idx now total).1 = false →
      (work.processSingleAck idx now total).2.msg.ackedBitset = work.msg.ackedBitset) := by
  simp only [processSingleAck]
  split
  next => exact ⟨rfl, fun _ => rfl⟩
  next =>
    cases hfresh : (work.msg.ackedBitset.set idx).1 with
    | true =>
        rw [if_pos rfl]
        split
        next =>
          rw [msg_recordDelivery]
          exact ⟨rfl, fun hnew => Bool.noConfusion hnew⟩
        next => exact ⟨rfl, fun hnew => Bool.noConfusion hnew⟩
    | false =>
        rw [if_neg Bool.false_ne_true]
        exact ⟨rfl, fun _ => BitSet.set_snd_of_fst hfresh⟩

theorem processAcks_queue (now : Instant) (total : Nat) (indices : List Nat) (work : AckWork) :
    ((processAcks now total indices work).2.msg.retransmitQueue,
        (processAcks now total indices work).2.msg.retransmitBitset) =
      (work.msg.retransmitQueue, work.msg.retransmitBitset) ∧
    ((processAcks now total indices work).1 = false →
      (processAcks now total indices work).2.msg.ackedBitset = work.msg.ackedBitset) := by
  induction indices generalizing work with
  | nil => exact ⟨rfl, fun _ => rfl⟩
  | cons idx rest ih =>
      obtain ⟨hqueue, hacked⟩ := work.processSingleAck_queue idx now total
      obtain ⟨hqueueRest, hackedRest⟩ := ih (work.processSingleAck idx now total).2
      refine ⟨hqueueRest.trans hqueue, fun hnone => ?_⟩
      obtain ⟨hfirst, hrest⟩ := Bool.or_eq_false_iff.mp hnone
      exact (hackedRest hrest).trans (hacked hfirst)

end Acks

end AckWork

namespace OutgoingMessage

/-! ## Acknowledgements and requests -/

variable {msg : OutgoingMessage} {work : SequenceSession.NackWork}

theorem mem_pruneRetransmits (h : idx ∈ msg.pruneRetransmits.retransmitQueue) :
    msg.isAcked idx = false := by
  have hin := (List.mem_filter.mp h).2
  rw [Bool.and_eq_true, decide_eq_true_eq, Bool.not_eq_true'] at hin
  exact isAcked_eq_false.mpr hin

/-- The end of `on_ack`: what is acknowledged has left the queue. -/
theorem finishAck_queue {work : AckWork} {any : Bool} (h : work.msg.QueueBooked)
    (hnum : work.msg.numFragments ≤ maxFragmentsPerMessage)
    (hunacked : any = false → ∀ idx ∈ work.msg.retransmitQueue, work.msg.isAcked idx = false) :
    (finishAck work any).2.QueueBooked ∧
      ∀ idx ∈ (finishAck work any).2.retransmitQueue, work.msg.isAcked idx = false := by
  have hscan := AckWork.requeues_detectLossesFromHoles hnum
  have hacked := isAcked_congr hscan.ackView
  have hnumScan : work.detectLossesFromHoles.msg.numFragments ≤ maxFragmentsPerMessage :=
    (congrArg (fun view => view.1.2.2.2) hscan.ackView).trans_le hnum
  have hqueue : ((finishAck work any).2.retransmitQueue, (finishAck work any).2.retransmitBitset) =
      ((if any then work.detectLossesFromHoles.msg.pruneRetransmits
        else work.detectLossesFromHoles.msg).retransmitQueue,
      (if any then work.detectLossesFromHoles.msg.pruneRetransmits
        else work.detectLossesFromHoles.msg).retransmitBitset) := by
    simp only [finishAck]
    split <;> rfl
  obtain ⟨hsame, -⟩ := Prod.mk.inj hqueue
  cases any with
  | true =>
      refine ⟨((hscan.booked h).pruneRetransmits hnumScan).of_same hqueue, fun idx hidx => ?_⟩
      rw [hsame] at hidx
      rw [← hacked]
      exact mem_pruneRetransmits hidx
  | false =>
      refine ⟨(hscan.booked h).of_same hqueue, fun idx hidx => ?_⟩
      rw [hsame] at hidx
      rcases hscan.added idx hidx with hold | hclear
      · exact hunacked rfl idx hold
      · exact hclear

theorem onAck_queue [FloatOps] (hcounted : msg.AcksCounted) (h : msg.QueueBooked)
    (hunacked : ∀ idx ∈ msg.retransmitQueue, msg.isAcked idx = false) (baseIndex : Nat)
    (bitmask : BitVec 64) (now : Instant) (total : Nat) :
    (msg.onAck baseIndex bitmask now total).2.QueueBooked ∧
      ∀ idx ∈ (msg.onAck baseIndex bitmask now total).2.retransmitQueue,
        (msg.onAck baseIndex bitmask now total).2.isAcked idx = false := by
  simp only [onAck]
  generalize hcollected : { msg with lastAckAt := now }.collectAckedIndices baseIndex bitmask =
    collected
  obtain ⟨indices, touched⟩ := collected
  have htouched : touched.ackView = msg.ackView ∧
      (touched.retransmitQueue, touched.retransmitBitset) =
        (msg.retransmitQueue, msg.retransmitBitset) := by
    have hsnd := congrArg Prod.snd hcollected
    dsimp only at hsnd
    rw [← hsnd]
    exact ⟨rfl, rfl⟩
  dsimp only
  set work : AckWork := ⟨touched, .new, false, ⟨0, 0, none, none, false, none⟩⟩
  obtain ⟨hqueue, hstale⟩ := AckWork.processAcks_queue now total indices work
  obtain ⟨hcontent, -, -⟩ := AckWork.processAcks_spec now total indices work
    (hcounted.of_ackView_eq htouched.1)
  have hnum : (AckWork.processAcks now total indices work).2.msg.numFragments ≤
      maxFragmentsPerMessage := by
    have hsame : (AckWork.processAcks now total indices work).2.msg.numFragments =
        msg.numFragments := (congrArg (fun content => content.2.2.2) hcontent).trans
          (congrArg (fun view => view.1.2.2.2) htouched.1)
    exact hsame.trans_le hcounted.num_le
  have hbooked := h.of_same (hqueue.trans htouched.2)
  have hkept : (AckWork.processAcks now total indices work).1 = false →
      ∀ idx ∈ (AckWork.processAcks now total indices work).2.msg.retransmitQueue,
        (AckWork.processAcks now total indices work).2.msg.isAcked idx = false := by
    intro hnone idx hidx
    rw [(Prod.mk.inj (hqueue.trans htouched.2)).1] at hidx
    have hclear := hunacked idx hidx
    rw [isAcked_eq_false] at hclear ⊢
    have hbits : (AckWork.processAcks now total indices work).2.msg.ackedBitset =
        msg.ackedBitset := (hstale hnone).trans (congrArg (fun view => view.2.1) htouched.1)
    have hsame : (AckWork.processAcks now total indices work).2.msg.numFragments =
        msg.numFragments := (congrArg (fun content => content.2.2.2) hcontent).trans
          (congrArg (fun view => view.1.2.2.2) htouched.1)
    rw [hbits, hsame]
    exact hclear
  generalize AckWork.processAcks now total indices work = processed at hbooked hnum hkept
  -- behind the loop, a fragment may be found lost before the queue is pruned
  suffices hfinish : ∀ last : AckWork, AckWork.Requeues processed.2 last →
      (finishAck last processed.1).2.QueueBooked ∧
        ∀ idx ∈ (finishAck last processed.1).2.retransmitQueue,
          (finishAck last processed.1).2.isAcked idx = false by
    split
    next => exact hfinish _ (.of_same rfl rfl)
    next =>
      split
      next =>
        exact hfinish _ ((AckWork.requeues_handleFastRetransmit hnum baseIndex).trans
          (.of_same rfl rfl))
      next => exact hfinish _ (.of_same rfl rfl)
  intro last hlast
  have hnumLast : last.msg.numFragments ≤ maxFragmentsPerMessage :=
    (congrArg (fun view => view.1.2.2.2) hlast.ackView).trans_le hnum
  obtain ⟨hqueueLast, hclear⟩ := @finishAck_queue last processed.1 (hlast.booked hbooked) hnumLast
    fun hnone idx hidx => by
      rw [isAcked_congr hlast.ackView]
      rcases hlast.added idx hidx with hold | hnew
      · exact hkept hnone idx hold
      · exact hnew
  refine ⟨hqueueLast, fun idx hidx => ?_⟩
  rw [isAcked_congr (ackView_finishAck last processed.1)]
  exact hclear idx hidx

theorem nackIndex_queue (hnum : work.msg.numFragments ≤ maxFragmentsPerMessage) (idx : Nat) :
    (SequenceSession.nackIndex work idx).msg.ackView = work.msg.ackView ∧
      (work.msg.QueueBooked → (SequenceSession.nackIndex work idx).msg.QueueBooked) ∧
      ∀ other ∈ (SequenceSession.nackIndex work idx).msg.retransmitQueue,
        other ∈ work.msg.retransmitQueue ∨ work.msg.isAcked other = false := by
  simp only [SequenceSession.nackIndex]
  split
  next => exact ⟨rfl, fun h => h, fun _ hin => .inl hin⟩
  next hunacked =>
    rw [Bool.not_eq_true] at hunacked
    have hidx := Nat.lt_of_lt_of_le (isAcked_eq_false.mp hunacked).1 hnum
    -- whether the fragment was in flight does not matter to the queue
    have hasked : ∀ msg : OutgoingMessage, msg.ackView = work.msg.ackView →
        (msg.retransmitQueue, msg.retransmitBitset) =
          (work.msg.retransmitQueue, work.msg.retransmitBitset) →
        let asked := if msg.retransmitBitset.get idx then msg
          else { msg with
            retransmitQueue := msg.retransmitQueue ++ [idx]
            retransmitBitset := (msg.retransmitBitset.set idx).2 }
        asked.ackView = work.msg.ackView ∧ (work.msg.QueueBooked → asked.QueueBooked) ∧
          ∀ other ∈ asked.retransmitQueue,
            other ∈ work.msg.retransmitQueue ∨ work.msg.isAcked other = false := by
      intro msg hview hsame
      dsimp only
      split
      next =>
        exact ⟨hview, fun h => h.of_same hsame, fun _ hin => .inl ((Prod.mk.inj hsame).1 ▸ hin)⟩
      next hclear =>
        refine ⟨hview, fun h => (h.of_same hsame).push hidx hclear rfl rfl, fun other hin => ?_⟩
        rw [(Prod.mk.inj hsame).1, List.mem_append, List.mem_singleton] at hin
        rcases hin with hold | rfl
        · exact .inl hold
        · exact .inr hunacked
    split
    next => exact hasked _ rfl rfl
    next => exact hasked _ rfl rfl

/-! ## Runs -/

/-- What of a message the books are about. -/
def books (msg : OutgoingMessage) :=
  (msg.ackRecord, msg.retransmitQueue, msg.retransmitBitset)

/-- The books of a message with the counting of its acknowledgements. -/
structure Kept (msg : OutgoingMessage) : Prop extends Cumulative msg, QueueBooked msg where
  unacked : ∀ idx ∈ msg.retransmitQueue, msg.isAcked idx = false

theorem Kept.of_books_eq {msg after : OutgoingMessage} (h : msg.Kept)
    (hbooks : after.books = msg.books) : after.Kept := by
  obtain ⟨hrecord, hqueue⟩ := Prod.mk.inj hbooks
  refine ⟨h.toCumulative.of_ackRecord_eq hrecord, h.toQueueBooked.of_same hqueue, ?_⟩
  intro idx hidx
  rw [(Prod.mk.inj hqueue).1] at hidx
  rw [isAcked_congr (Prod.mk.inj hrecord).1]
  exact h.unacked idx hidx

theorem kept_new {messageType : MessageType} {data : Bytes} {payloadMtu : Nat} {now : Instant}
    (hnew : new messageType data payloadMtu now = .ok msg) : msg.Kept := by
  have hcounted := (new_spec hnew).2.1
  unfold new at hnew
  dsimp only at hnew
  split at hnew
  next => cases hnew
  next =>
    cases hnew
    refine ⟨⟨hcounted, fun idx hidx => absurd hidx (Nat.not_lt_zero idx)⟩,
      ⟨List.nodup_nil, fun idx => ?_⟩, nofun⟩
    rw [BitSet.get_new]
    exact iff_of_false nofun nofun

theorem Kept.popRetransmit (h : msg.Kept) : (FlushState.popRetransmit msg).Kept := by
  have hrecord : (FlushState.popRetransmit msg).ackRecord = msg.ackRecord := by
    unfold FlushState.popRetransmit
    split <;> rfl
  refine ⟨h.toCumulative.of_ackRecord_eq hrecord, h.toQueueBooked.popRetransmit, fun idx hidx => ?_⟩
  rw [isAcked_congr (Prod.mk.inj hrecord).1]
  refine h.unacked idx ?_
  unfold FlushState.popRetransmit at hidx
  split at hidx
  next => exact hidx
  next first rest hqueue => exact hqueue ▸ List.mem_cons_of_mem _ hidx

theorem Kept.nackIndex (h : work.msg.Kept) (idx : Nat) :
    (SequenceSession.nackIndex work idx).msg.Kept := by
  obtain ⟨hview, hqueue, hadded⟩ := nackIndex_queue h.counted.num_le idx
  have hcumulative : (SequenceSession.nackIndex work idx).msg.highestCumulativeAck =
      work.msg.highestCumulativeAck := by
    simp only [SequenceSession.nackIndex]
    split
    next => rfl
    next =>
      split
      next => split <;> rfl
      next => split <;> rfl
  refine ⟨h.toCumulative.of_ackRecord_eq (Prod.ext hview hcumulative), hqueue h.toQueueBooked, ?_⟩
  intro other hother
  rw [isAcked_congr hview]
  rcases hadded other hother with hold | hclear
  · exact h.unacked other hold
  · exact hclear

/-- Every operation keeps the books, and what is acknowledged stays so. -/
theorem Kept.step [FloatOps] {msg after : OutgoingMessage} (h : msg.Kept) (hstep : Step msg after) :
    after.Kept ∧ ∀ idx, msg.ackedBitset.get idx = true → after.ackedBitset.get idx = true := by
  have hsame : ∀ {after : OutgoingMessage}, after.ackView = msg.ackView →
      ∀ idx, msg.ackedBitset.get idx = true → after.ackedBitset.get idx = true := by
    intro after hview idx hget
    have hbits : after.ackedBitset = msg.ackedBitset := congrArg (fun view => view.2.1) hview
    rwa [hbits]
  cases hstep with
  | retimed _ timeout
  | sent _ idx now delivered lastDelivery appLimited size => exact ⟨h.of_books_eq rfl, hsame rfl⟩
  | retransmitted => exact ⟨h.popRetransmit, hsame (FlushState.ackView_popRetransmit msg)⟩
  | timedOut _ idx | advanced => exact ⟨h.of_books_eq rfl, hsame rfl⟩
  | nacked work idx => exact ⟨h.nackIndex idx, hsame (nackIndex_queue h.counted.num_le idx).1⟩
  | unqueued _ keep => exact ⟨h.of_books_eq rfl, hsame rfl⟩
  | acked _ baseIndex bitmask now delivered =>
      obtain ⟨hqueue, hunacked⟩ :=
        onAck_queue h.counted h.toQueueBooked h.unacked baseIndex bitmask now delivered
      refine ⟨⟨h.toCumulative.onAck baseIndex bitmask now delivered, hqueue, hunacked⟩, ?_⟩
      intro idx hget
      rw [(ackRecord_onAck h.counted baseIndex bitmask now delivered).2, hget]
      rfl

theorem Kept.booked (h : msg.Kept) : msg.Booked := by
  refine ⟨h.counted.acked_lt, ?_, fun idx hidx => ?_, h.toQueueBooked, h.unacked⟩
  · rw [h.counted.count_eq]
    refine congrArg Finset.card (Finset.ext fun idx => ?_)
    rw [Finset.mem_filter, Finset.mem_range, BitSet.mem_indices]
    exact and_iff_right_of_imp (h.counted.acked_lt idx)
  · rw [← Bool.not_eq_false, isAcked_eq_false]
    rintro ⟨hlt, hclear⟩
    rw [h.below idx hidx hlt] at hclear
    cases hclear

theorem Kept.steps [FloatOps] {msg after : OutgoingMessage} (h : msg.Kept)
    (hsteps : Relation.ReflTransGen Step msg after) :
    after.Kept ∧ ∀ idx, msg.ackedBitset.get idx = true → after.ackedBitset.get idx = true := by
  induction hsteps with
  | refl => exact ⟨h, fun _ hacked => hacked⟩
  | tail _ hlast ih =>
      obtain ⟨hkept, hgrown⟩ := ih.1.step hlast
      exact ⟨hkept, fun idx hacked => hgrown idx (ih.2 idx hacked)⟩

/-- In every state of a message, after whatever operations, the books agree; and what was
acknowledged in an earlier state still is. -/
theorem books_agree [FloatOps] (messageType : MessageType) (data : Bytes) (payloadMtu : Nat)
    (now : Instant) (start earlier later : OutgoingMessage)
    (hnew : new messageType data payloadMtu now = .ok start)
    (hearlier : Relation.ReflTransGen Step start earlier)
    (hlater : Relation.ReflTransGen Step earlier later) :
    later.Booked ∧ ∀ idx, earlier.ackedBitset.get idx = true → later.ackedBitset.get idx = true := by
  have hkept := ((kept_new hnew).steps hearlier).1
  obtain ⟨hkeptLater, hgrown⟩ := hkept.steps hlater
  exact ⟨hkeptLater.booked, hgrown⟩

/-- Three fragments of which the last two are acknowledged, by an acknowledgement with a base
index beyond the message, too. -/
theorem books_agree_hostile : ∃ later : OutgoingMessage, later.Booked ∧ later.ackedCount = 3 := by
  obtain ⟨hbooked, -⟩ := @books_agree exactFloatOps .merkleNode [7, 8, 9] 1 0 _ _ _ rfl .refl
    (.tail (.single (@Step.acked exactFloatOps _ 0 3 0 0)) (@Step.acked exactFloatOps _ 65535 1 0 0))
  exact ⟨_, hbooked, by decide +kernel⟩

/-! ## Sessions -/

/-- The states of a message that its operations lead to. -/
def Stepped [FloatOps] (msg : OutgoingMessage) : Prop :=
  ∃ messageType data payloadMtu now start, new messageType data payloadMtu now = .ok start ∧
    Relation.ReflTransGen Step start msg

theorem Stepped.step [FloatOps] {msg after : OutgoingMessage} (h : msg.Stepped)
    (hstep : Step msg after) : after.Stepped := by
  obtain ⟨messageType, data, payloadMtu, now, start, hnew, hsteps⟩ := h
  exact ⟨messageType, data, payloadMtu, now, start, hnew, hsteps.tail hstep⟩

theorem Stepped.nackAll [FloatOps] (indices : List Nat) (work : SequenceSession.NackWork)
    (h : work.msg.Stepped) : (indices.foldl SequenceSession.nackIndex work).msg.Stepped := by
  induction indices generalizing work with
  | nil => exact h
  | cons idx rest ih => exact ih _ (h.step (.nacked work idx))

/-- An update of a session is a sequence of operations on the message. -/
theorem Stepped.update [FloatOps] {before : Option OutgoingMessage}
    (hupdate : Update delivered before msg) (h : ∀ old ∈ before, old.Stepped) : msg.Stepped := by
  cases hupdate with
  | queued hsize hnew => exact ⟨_, _, _, _, _, hnew, .refl⟩
  | retimed old timeout => exact (h old rfl).step (.retimed old timeout)
  | sent old idx now lastDelivery appLimited =>
      exact (h old rfl).step (.sent old idx now delivered lastDelivery appLimited _)
  | advanced old => exact (h old rfl).step (.advanced old)
  | popped old => exact (h old rfl).step (.retransmitted old)
  | timedOut old idx => exact (h old rfl).step (.timedOut old idx)
  | nacked old indices inFlight =>
      have hasked := Stepped.nackAll indices ⟨old, inFlight, .new, false, false⟩ (h old rfl)
      unfold SequenceSession.NackWork.finish
      split
      next => exact hasked.step (.unqueued _ _)
      next => exact hasked

end OutgoingMessage

namespace SequenceSession

open OutgoingMessage

variable {C : Type} [FloatOps] [CongestionControl C]

/-- The books of every message that a session sends agree, in every run. -/
theorem booked_of_run (config : SessionConfig C) (operations : List Operation) :
    (runFrom step (.new config) operations).EveryMessage fun _ msg => msg.Booked := by
  have hkept : ∀ {session after : SequenceSession C}, session.SenderUpdate after →
      session.EveryMessage (fun _ msg => msg.Stepped) →
        after.EveryMessage fun _ msg => msg.Stepped := fun hupdate hinv =>
    hupdate.everyMessage (fun h => h) Stepped.update
      (fun {_ msg} ack now h => h.step (.acked msg ack.baseIndex ack.bitmask now _)) hinv
  have hmessages := runFrom_of_updates hkept config operations fun _ _ hget => nomatch hget
  intro id msg hget
  obtain ⟨_, _, _, _, _, hnew, hsteps⟩ := hmessages id msg hget
  exact ((kept_new hnew).steps hsteps).1.booked

end SequenceSession

end MerkleTox.Sequenced
