import MerkleTox.Sequenced.Fragments
import MerkleTox.Sequenced.Network

/-! # What the peer says about fragments

Acknowledgements and requests for retransmission take fragments out of flight. While
one is processed, the fragments that leave are marked, and the queues follow at its
end. `OutgoingMessage.Settles` says what comes of it: the message is tracked again, and
the bytes reported to the session are those that left.
-/

namespace MerkleTox.Sequenced

open Proto

/-! ## Acknowledgements -/

namespace AckWork

/-- The flights of a message while an acknowledgement is processed: the fragments that
left are marked, and the queue of those in flight still has them. -/
structure Landing (start : OutgoingMessage) (work : AckWork) : Prop where
  content : work.msg.content = start.content
  states : work.msg.fragmentStates.length = start.fragmentStates.length
  next : work.msg.nextFragment = start.nextFragment
  queue : work.msg.inFlightQueue = start.inFlightQueue
  info : ∀ idx, (work.msg.fragmentState idx).deliveryInfo = (start.fragmentState idx).deliveryInfo
  landed : ∀ idx, work.msg.isInFlight idx = true → start.isInFlight idx = true
  removed : ∀ idx, work.toRemove.get idx = true ↔
    start.isInFlight idx = true ∧ work.msg.isInFlight idx = false
  cleanup : work.needsCleanup = false → ∀ idx, work.toRemove.get idx = false
  freed : work.res.newlyCompletedInFlightBytes = 0

/-- The work after a fragment has left, when it was in flight. -/
structure Lands (work : AckWork) (idx : Nat) (after : AckWork) : Prop where
  content : after.msg.content = work.msg.content
  states : after.msg.fragmentStates.length = work.msg.fragmentStates.length
  next : after.msg.nextFragment = work.msg.nextFragment
  queue : after.msg.inFlightQueue = work.msg.inFlightQueue
  info : ∀ other, (after.msg.fragmentState other).deliveryInfo =
    (work.msg.fragmentState other).deliveryInfo
  isInFlight : ∀ other, after.msg.isInFlight other =
    if other = idx then false else work.msg.isInFlight other
  removed : ∀ other, after.toRemove.get other =
    (work.toRemove.get other || (decide (other = idx) && work.msg.isInFlight idx))
  cleanup : after.needsCleanup = (work.needsCleanup || work.msg.isInFlight idx)
  freed : after.res.newlyCompletedInFlightBytes = work.res.newlyCompletedInFlightBytes

variable {start : OutgoingMessage} {asked : Nat → Prop} {work after : AckWork} {idx : Nat}

theorem Landing.land (h : Landing start work) (hlands : Lands work idx after) :
    Landing start after where
  content := hlands.content.trans h.content
  states := hlands.states.trans h.states
  next := hlands.next.trans h.next
  queue := hlands.queue.trans h.queue
  info other := (hlands.info other).trans (h.info other)
  landed other hother := by
    rw [hlands.isInFlight] at hother
    split at hother
    next => cases hother
    next => exact h.landed other hother
  removed other := by
    rw [hlands.removed, hlands.isInFlight, Bool.or_eq_true, h.removed, Bool.and_eq_true,
      decide_eq_true_eq]
    by_cases heq : other = idx
    · subst heq
      rw [if_pos rfl]
      constructor
      · rintro (⟨hstart, _⟩ | ⟨_, hflight⟩)
        · exact ⟨hstart, rfl⟩
        · exact ⟨h.landed other hflight, rfl⟩
      · rintro ⟨hstart, _⟩
        cases hflight : work.msg.isInFlight other with
        | false => exact .inl ⟨hstart, rfl⟩
        | true => exact .inr ⟨rfl, rfl⟩
    · simp [heq]
  cleanup hclean other := by
    rw [hlands.cleanup, Bool.or_eq_false_iff] at hclean
    rw [hlands.removed, h.cleanup hclean.1, hclean.2, Bool.and_false]
    rfl
  freed := hlands.freed.trans h.freed

/-- Marking a fragment for removal if it was in flight. -/
theorem markForRemoval_if (work : AckWork) (flying : Bool)
    (hcapacity : idx < maxFragmentsPerMessage) :
    let marked := if flying then work.markForRemoval idx else work
    marked.msg = work.msg ∧
      marked.toRemove = (if flying then (work.toRemove.set idx).2 else work.toRemove) ∧
      marked.needsCleanup = (work.needsCleanup || flying) ∧
      marked.res = work.res := by
  cases flying with
  | false => simp
  | true => simp [markForRemoval, hcapacity]

/-- Taking away the time at which a fragment was sent, and marking it if there was one. -/
theorem lands_of_states (hlt : idx < work.msg.fragmentStates.length)
    (hcapacity : idx < maxFragmentsPerMessage)
    (hcontent : after.msg.content = work.msg.content)
    (hnext : after.msg.nextFragment = work.msg.nextFragment)
    (hqueue : after.msg.inFlightQueue = work.msg.inFlightQueue)
    (hstates : after.msg.fragmentStates = work.msg.fragmentStates.set idx
      { work.msg.fragmentState idx with lastSent := none })
    (hremove : after.toRemove =
      if work.msg.isInFlight idx then (work.toRemove.set idx).2 else work.toRemove)
    (hclean : after.needsCleanup = (work.needsCleanup || work.msg.isInFlight idx))
    (hfreed : after.res.newlyCompletedInFlightBytes = work.res.newlyCompletedInFlightBytes) :
    Lands work idx after := by
  have hstate := OutgoingMessage.fragmentState_of_set hstates hlt
  refine
    { content := hcontent
      states := by rw [hstates, List.length_set]
      next := hnext
      queue := hqueue
      info := ?_
      isInFlight := ?_
      removed := ?_
      cleanup := hclean
      freed := hfreed }
  · intro other
    rw [hstate]
    split
    next heq => rw [heq]
    next => rfl
  · intro other
    unfold OutgoingMessage.isInFlight
    rw [hstate]
    split <;> rfl
  · intro other
    have hbound : idx < bitsetWords * 64 := hcapacity
    rw [hremove]
    split
    next hflight => simp [BitSet.get_set, hbound, hflight]
    next hidle => simp [Bool.eq_false_of_not_eq_true hidle]

/-- A fragment that is not in flight leaves without a trace. -/
theorem lands_of_idle (hidle : work.msg.isInFlight idx = false)
    (hcontent : after.msg.content = work.msg.content)
    (hnext : after.msg.nextFragment = work.msg.nextFragment)
    (hqueue : after.msg.inFlightQueue = work.msg.inFlightQueue)
    (hstates : after.msg.fragmentStates = work.msg.fragmentStates)
    (hmarks : (after.toRemove, after.needsCleanup, after.res) =
      (work.toRemove, work.needsCleanup, work.res)) :
    Lands work idx after := by
  have hstate : after.msg.fragmentState = work.msg.fragmentState := by
    funext other
    unfold OutgoingMessage.fragmentState
    rw [hstates]
  simp only [Prod.mk.injEq] at hmarks
  obtain ⟨hremove, hclean, hres⟩ := hmarks
  refine
    { content := hcontent
      states := by rw [hstates]
      next := hnext
      queue := hqueue
      info := by rw [hstate]; exact fun _ => rfl
      isInFlight := ?_
      removed := by simp [hremove, hidle]
      cleanup := by simp [hclean, hidle]
      freed := by rw [hres] }
  intro other
  split
  next heq =>
    rw [heq, ← hidle]
    unfold OutgoingMessage.isInFlight
    rw [hstate]
  next =>
    unfold OutgoingMessage.isInFlight
    rw [hstate]

/-- A message while an acknowledgement is processed. What is newly acknowledged is not in
flight, and what is newly queued for retransmission was, or it is asked for. -/
structure Settling (start : OutgoingMessage) (asked : Nat → Prop) (work : AckWork) : Prop
    extends Landing start work where
  counted : work.msg.AcksCounted
  acked : ∀ idx, start.isAcked idx = true → work.msg.isAcked idx = true
  idle : ∀ idx, work.msg.isAcked idx = true →
    start.isAcked idx = true ∨ work.msg.isInFlight idx = false
  kept : ∀ idx ∈ start.retransmitQueue, idx ∈ work.msg.retransmitQueue
  added : ∀ idx ∈ work.msg.retransmitQueue,
    idx ∈ start.retransmitQueue ∨ start.isInFlight idx = true ∨ asked idx
  unacked : ∀ idx ∈ work.msg.retransmitQueue, start.isAcked idx = false
  marked : ∀ idx, work.msg.retransmitBitset.get idx = true → idx ∈ work.msg.retransmitQueue
  waiting : ∀ idx, work.msg.isAcked idx = false →
    (work.msg.fragmentState idx).deliveryInfo.isSome = true → work.msg.isInFlight idx = false →
      idx ∈ work.msg.retransmitQueue

/-- Other fields of the message do not matter. -/
theorem Settling.of_same (h : Settling start asked work)
    (hview : after.msg.ackView = work.msg.ackView)
    (hnext : after.msg.nextFragment = work.msg.nextFragment)
    (hqueues : (after.msg.inFlightQueue, after.msg.retransmitQueue, after.msg.retransmitBitset) =
      (work.msg.inFlightQueue, work.msg.retransmitQueue, work.msg.retransmitBitset))
    (hstates : after.msg.fragmentStates = work.msg.fragmentStates)
    (hmarks : (after.toRemove, after.needsCleanup, after.res) =
      (work.toRemove, work.needsCleanup, work.res)) :
    Settling start asked after := by
  have hstate : after.msg.fragmentState = work.msg.fragmentState := by
    funext idx
    unfold OutgoingMessage.fragmentState
    rw [hstates]
  have hflight : after.msg.isInFlight = work.msg.isInFlight := by
    funext idx
    unfold OutgoingMessage.isInFlight
    rw [hstate]
  have hacked : after.msg.isAcked = work.msg.isAcked :=
    funext (OutgoingMessage.isAcked_congr hview)
  simp only [Prod.mk.injEq] at hqueues hmarks
  obtain ⟨hqueue, hretransmits, hbits⟩ := hqueues
  obtain ⟨hremove, hclean, hres⟩ := hmarks
  constructor
  · constructor
    · rw [OutgoingMessage.content_eq_of_ackView_eq hview, h.content]
    · rw [hstates, h.states]
    · rw [hnext, h.next]
    · rw [hqueue, h.queue]
    · rw [hstate]
      exact h.info
    · rw [hflight]
      exact h.landed
    · rw [hremove, hflight]
      exact h.removed
    · rw [hclean, hremove]
      exact h.cleanup
    · rw [hres, h.freed]
  · exact h.counted.of_ackView_eq hview
  · rw [hacked]
    exact h.acked
  · rw [hacked, hflight]
    exact h.idle
  · rw [hretransmits]
    exact h.kept
  · rw [hretransmits]
    exact h.added
  · rw [hretransmits]
    exact h.unacked
  · rw [hbits, hretransmits]
    exact h.marked
  · rw [hacked, hstate, hflight, hretransmits]
    exact h.waiting

/-- Queueing an unacknowledged fragment for retransmission, out of flight. -/
theorem Settling.enqueue (h : Settling start asked work) (hlands : Lands work idx after)
    (hview : after.msg.ackView = work.msg.ackView) (hunacked : work.msg.isAcked idx = false)
    (hreason : start.isInFlight idx = true ∨ asked idx)
    (hqueue : ∀ other, other ∈ after.msg.retransmitQueue ↔
      other ∈ work.msg.retransmitQueue ∨ other = idx)
    (hbits : ∀ other, after.msg.retransmitBitset.get other = true →
      work.msg.retransmitBitset.get other = true ∨ other = idx) :
    Settling start asked after := by
  have hsame := OutgoingMessage.isAcked_congr hview
  refine ⟨h.toLanding.land hlands, h.counted.of_ackView_eq hview, ?_, ?_, ?_, ?_, ?_, ?_, ?_⟩
  · intro other hother
    rw [hsame]
    exact h.acked other hother
  · intro other hother
    rw [hsame] at hother
    rw [hlands.isInFlight]
    refine (h.idle other hother).imp id fun hidle => ?_
    split
    next => rfl
    next => exact hidle
  · intro other hother
    exact (hqueue other).mpr (.inl (h.kept other hother))
  · intro other hother
    rcases (hqueue other).mp hother with hold | rfl
    · exact h.added other hold
    · exact .inr hreason
  · intro other hother
    rcases (hqueue other).mp hother with hold | rfl
    · exact h.unacked other hold
    · rw [← Bool.not_eq_true]
      intro hacked
      exact Bool.false_ne_true (hunacked.symm.trans (h.acked other hacked))
  · intro other hother
    exact (hqueue other).mpr ((hbits other hother).imp (h.marked other) id)
  · intro other hunacked' hinfo hidle
    by_cases heq : other = idx
    · exact (hqueue other).mpr (.inr heq)
    · rw [hsame] at hunacked'
      rw [hlands.info] at hinfo
      rw [hlands.isInFlight, if_neg heq] at hidle
      exact (hqueue other).mpr (.inl (h.waiting other hunacked' hinfo hidle))

section

variable (h : Settling start asked work) (hstart : start.Tracked)
include h hstart

/-- A fragment that is not acknowledged has a state and a bit in every set. -/
theorem Settling.bounds (hunacked : work.msg.isAcked idx = false) :
    idx < work.msg.fragmentStates.length ∧ idx < maxFragmentsPerMessage := by
  have hnum : work.msg.numFragments = start.numFragments :=
    congrArg (fun content => content.2.2.2) h.content
  have hin := (OutgoingMessage.isAcked_eq_false.mp hunacked).1
  rw [h.states, hstart.states, ← hnum]
  exact ⟨hin, lt_of_lt_of_le hin h.counted.num_le⟩

/-- Giving an unacknowledged fragment up for lost. -/
theorem Settling.triggerLoss (hunacked : work.msg.isAcked idx = false)
    (hflight : work.msg.isInFlight idx = true) :
    Settling start asked (work.triggerLoss idx) := by
  obtain ⟨hlt, hcapacity⟩ := h.bounds hstart hunacked
  set queued : AckWork := { work with msg := { work.msg with
    retransmitQueue := work.msg.retransmitQueue ++ [idx]
    retransmitBitset := (work.msg.retransmitBitset.set idx).2
    fragmentStates := work.msg.fragmentStates.set idx
      { work.msg.fragmentState idx with lastSent := none } } } with hqueued
  obtain ⟨hmark, hremove, hclean, hres⟩ :=
    markForRemoval_if queued (work.msg.isInFlight idx) hcapacity
  have hmsg : (work.triggerLoss idx).msg = queued.msg := hmark
  have hfreed := congrArg AckResult.newlyCompletedInFlightBytes hres
  have hlands : Lands work idx (work.triggerLoss idx) :=
    lands_of_states hlt hcapacity (by rw [hmsg]; rfl) (by rw [hmsg]) (by rw [hmsg])
      (by rw [hmsg]) hremove hclean hfreed
  refine h.enqueue hlands (ackView_triggerLoss _ _) hunacked (.inl (h.landed idx hflight)) ?_ ?_
  · intro other
    rw [hmsg]
    simp [hqueued]
  · intro other hother
    rw [hmsg] at hother
    simp only [hqueued, BitSet.get_set, Bool.or_eq_true, Bool.and_eq_true,
      decide_eq_true_eq] at hother
    exact hother.imp id And.left

theorem Settling.handleFastRetransmit (baseIndex : Nat) :
    Settling start asked (work.handleFastRetransmit baseIndex) := by
  simp only [AckWork.handleFastRetransmit]
  split
  next =>
    have hcounting : Settling start asked
        { work with msg := { work.msg with dupAckCount := work.msg.dupAckCount + 1 } } :=
      h.of_same rfl rfl rfl rfl rfl
    split
    next htrigger =>
      obtain ⟨-, hunacked, -, hsent⟩ := htrigger
      refine hcounting.triggerLoss hstart (by simpa using hunacked) ?_
      obtain ⟨sent, hlast, -⟩ := (Option.any_eq_true _ _).mp hsent
      exact Option.isSome_iff_exists.mpr ⟨sent, hlast⟩
    next => exact hcounting
  next => exact h

theorem Settling.detectLossAt (maxSent : Option Instant) (ackedCount ackedSoFar : Nat) (idx : Nat) :
    Settling start asked (AckWork.detectLossAt maxSent ackedCount (ackedSoFar, work) idx).2 := by
  unfold AckWork.detectLossAt
  dsimp only
  split
  next => exact h
  next hunacked =>
    split
    next htrigger =>
      obtain ⟨-, -, hsent⟩ := htrigger
      obtain ⟨sent, hlast, -⟩ := (Option.any_eq_true _ _).mp hsent
      have hflight : work.msg.isInFlight idx = true :=
        Option.isSome_iff_exists.mpr ⟨sent, hlast⟩
      refine h.triggerLoss hstart ?_ hflight
      have hnum : work.msg.numFragments = start.numFragments :=
        congrArg (fun content => content.2.2.2) h.content
      refine OutgoingMessage.isAcked_eq_false.mpr ⟨?_, Bool.eq_false_of_not_eq_true hunacked⟩
      rw [hnum]
      exact hstart.lt_of_isInFlight (h.landed idx hflight)
    next => exact h

theorem Settling.detectLossesFromHoles :
    Settling start asked work.detectLossesFromHoles :=
  work.detectLossesFromHoles_keeps (Settling start asked) h fun maxSent ackedCount acc idx hacc =>
    hacc.detectLossAt hstart maxSent ackedCount acc.1 idx

end

section Acks

variable [FloatOps]

theorem marks_updateDeliverySample (work : AckWork) (info : FragmentDeliveryInfo) (total : Nat)
    (now : Instant) :
    (work.updateDeliverySample info total now).toRemove = work.toRemove ∧
      (work.updateDeliverySample info total now).needsCleanup = work.needsCleanup ∧
      (work.updateDeliverySample info total now).res.newlyCompletedInFlightBytes =
        work.res.newlyCompletedInFlightBytes := by
  simp only [updateDeliverySample]
  split
  next => exact ⟨rfl, rfl, rfl⟩
  next => split <;> exact ⟨rfl, rfl, rfl⟩

/-- Of the marks, the accounting of a delivery sets that of its fragment. -/
theorem marks_recordDelivery (work : AckWork) (state : FragmentState)
    (info : FragmentDeliveryInfo) (now : Instant) (total : Nat)
    (hcapacity : idx < maxFragmentsPerMessage) :
    let after := work.recordDelivery idx state info now total
    after.toRemove =
        (if state.lastSent.isSome then (work.toRemove.set idx).2 else work.toRemove) ∧
      after.needsCleanup = (work.needsCleanup || state.lastSent.isSome) ∧
      after.res.newlyCompletedInFlightBytes = work.res.newlyCompletedInFlightBytes := by
  set credited : AckWork := { work with res := { work.res with
    newlyDeliveredBytes := work.res.newlyDeliveredBytes + info.size } } with hcredited
  obtain ⟨-, hremove, hclean, hres⟩ :=
    markForRemoval_if credited state.lastSent.isSome hcapacity
  obtain ⟨hremove', hclean', hfreed⟩ := marks_updateDeliverySample
    (if state.lastSent.isSome then credited.markForRemoval idx else credited) info total now
  have hmarks := And.intro (hremove'.trans hremove) (And.intro (hclean'.trans hclean)
    (hfreed.trans (congrArg AckResult.newlyCompletedInFlightBytes hres)))
  simp only [recordDelivery]
  split <;> exact hmarks

/-- The work after the acknowledgement of a fragment that was not acknowledged before. -/
theorem processSingleAck_fresh (h : Settling start asked work) (hstart : start.Tracked)
    (hunacked : work.msg.isAcked idx = false) (now : Instant) (total : Nat) :
    (work.processSingleAck idx now total).1 = true ∧
      Lands work idx (work.processSingleAck idx now total).2 ∧
      (work.processSingleAck idx now total).2.msg.ackedBitset =
        (work.msg.ackedBitset.set idx).2 ∧
      ((work.processSingleAck idx now total).2.msg.retransmitQueue,
        (work.processSingleAck idx now total).2.msg.retransmitBitset) =
          (work.msg.retransmitQueue, work.msg.retransmitBitset) := by
  obtain ⟨hin, hclear⟩ := OutgoingMessage.isAcked_eq_false.mp hunacked
  obtain ⟨hlt, hcapacity⟩ := h.bounds hstart hunacked
  have hbound : idx < bitsetWords * 64 := hcapacity
  have hnew : (work.msg.ackedBitset.set idx).1 = true := by
    simp [BitSet.set_fst, hbound, hclear]
  simp only [processSingleAck, Nat.not_le.mpr hin, if_false, hnew, if_true]
  split
  next info hinfo =>
    refine ⟨rfl, ?_, by rw [msg_recordDelivery], by rw [msg_recordDelivery]⟩
    obtain ⟨hremove, hclean, hfreed⟩ := marks_recordDelivery _ (work.msg.fragmentState idx) info
      now total hcapacity
    refine lands_of_states hlt hcapacity ?_ ?_ ?_ ?_ hremove hclean hfreed
    all_goals rw [msg_recordDelivery]
    rfl
  next hinfo =>
    -- A fragment without delivery information was never sent.
    have hidle : work.msg.isInFlight idx = false := by
      rw [← Bool.not_eq_true]
      intro hflight
      have hnoted := hstart.noted idx (h.landed idx hflight)
      rw [← h.info, hinfo] at hnoted
      cases hnoted
    refine ⟨rfl, ?_, rfl, rfl⟩
    refine lands_of_states hlt hcapacity rfl rfl rfl rfl ?_ ?_ rfl
    · rw [hidle]
      rfl
    · rw [hidle, Bool.or_false]

/-- A fragment that is acknowledged already changes nothing. -/
theorem processSingleAck_stale (hacked : work.msg.isAcked idx = true) (now : Instant)
    (total : Nat) : work.processSingleAck idx now total = (false, work) := by
  unfold processSingleAck
  dsimp only
  split
  next => rfl
  next hin =>
    unfold OutgoingMessage.isAcked at hacked
    rw [if_neg hin] at hacked
    have hstale : (work.msg.ackedBitset.set idx).1 = false := by simp [BitSet.set_fst, hacked]
    simp only [hstale, Bool.false_eq_true, if_false, BitSet.set_snd_of_fst hstale]

/-- What one acknowledged index does to the set of acknowledged fragments. -/
theorem isAcked_processSingleAck (h : Settling start asked work) (hstart : start.Tracked)
    (idx : Nat)
    (now : Instant) (total : Nat) (other : Nat) :
    (work.processSingleAck idx now total).2.msg.isAcked other =
      (work.msg.isAcked other || decide (other = idx)) := by
  cases hidx : work.msg.isAcked idx with
  | true =>
      rw [processSingleAck_stale hidx]
      by_cases heq : other = idx
      · simp [heq, hidx]
      · simp [heq]
  | false =>
      obtain ⟨-, hlands, hbits, -⟩ := processSingleAck_fresh h hstart hidx now total
      have hin := (OutgoingMessage.isAcked_eq_false.mp hidx).1
      have hbound : idx < bitsetWords * 64 := lt_of_lt_of_le hin h.counted.num_le
      have hnum : (work.processSingleAck idx now total).2.msg.numFragments =
          work.msg.numFragments := congrArg (fun content => content.2.2.2) hlands.content
      unfold OutgoingMessage.isAcked
      rw [hnum, hbits, BitSet.get_set]
      split
      next => rfl
      next => simp [hbound]

theorem Settling.processSingleAck (h : Settling start asked work) (hstart : start.Tracked)
    (idx : Nat)
    (now : Instant) (total : Nat) :
    Settling start asked (work.processSingleAck idx now total).2 := by
  cases hidx : work.msg.isAcked idx with
  | true =>
      rw [processSingleAck_stale hidx]
      exact h
  | false =>
      obtain ⟨-, hlands, -, hretransmits⟩ := processSingleAck_fresh h hstart hidx now total
      have hacked := isAcked_processSingleAck h hstart idx now total
      have hcounted := (work.processSingleAck_spec idx now total h.counted).2.1
      set after := (work.processSingleAck idx now total).2
      simp only [Prod.mk.injEq] at hretransmits
      obtain ⟨hqueue, hbits⟩ := hretransmits
      refine ⟨h.toLanding.land hlands, hcounted, ?_, ?_, ?_, ?_, ?_, ?_, ?_⟩
      · intro other hother
        rw [hacked, h.acked other hother]
        rfl
      · intro other hother
        rw [hacked, Bool.or_eq_true, decide_eq_true_eq] at hother
        rw [hlands.isInFlight]
        by_cases heq : other = idx
        · exact .inr (if_pos heq)
        · rw [if_neg heq]
          exact h.idle other (hother.resolve_right heq)
      · rw [hqueue]
        exact h.kept
      · rw [hqueue]
        exact h.added
      · rw [hqueue]
        exact h.unacked
      · rw [hqueue, hbits]
        exact h.marked
      · intro other hunacked hinfo hidle
        rw [hacked, Bool.or_eq_false_iff, decide_eq_false_iff_not] at hunacked
        rw [hlands.info] at hinfo
        rw [hlands.isInFlight, if_neg hunacked.2] at hidle
        rw [hqueue]
        exact h.waiting other hunacked.1 hinfo hidle

/-- The loop over the acknowledged indices: they are acknowledged afterwards, and nothing
has changed when the answer is no. -/
theorem Settling.processAcks (hstart : start.Tracked) (now : Instant) (total : Nat)
    (indices : List Nat) (h : Settling start asked work) :
    Settling start asked (AckWork.processAcks now total indices work).2 ∧
      (∀ other, (AckWork.processAcks now total indices work).2.msg.isAcked other =
        (work.msg.isAcked other || decide (other ∈ indices))) ∧
      ((AckWork.processAcks now total indices work).1 = false →
        ∀ idx ∈ indices, work.msg.isAcked idx = true) := by
  induction indices generalizing work with
  | nil => exact ⟨h, by simp [AckWork.processAcks], fun _ _ hmem => nomatch hmem⟩
  | cons idx rest ih =>
      have hacked := isAcked_processSingleAck h hstart idx now total
      obtain ⟨hrest, hackedRest, hstale⟩ := ih (h.processSingleAck hstart idx now total)
      refine ⟨hrest, ?_, ?_⟩
      · intro other
        refine (hackedRest other).trans ?_
        rw [hacked, Bool.or_assoc, ← Bool.decide_or]
        simp only [List.mem_cons]
      · intro hnone other hmem
        obtain ⟨hfirst, hlater⟩ := Bool.or_eq_false_iff.mp hnone
        have hidx : work.msg.isAcked idx = true := by
          by_contra hunacked
          have hfresh := (processSingleAck_fresh h hstart (Bool.eq_false_of_not_eq_true hunacked)
            now total).1
          exact Bool.false_ne_true (hfirst.symm.trans hfresh)
        rcases List.mem_cons.mp hmem with rfl | hrestMem
        · exact hidx
        · have hsame := hstale hlater other hrestMem
          rwa [processSingleAck_stale hidx] at hsame

end Acks

end AckWork

namespace OutgoingMessage

/-- What an acknowledgement or a request for retransmission does to a message, and the
bytes that it takes out of flight. -/
structure Settles (before after : OutgoingMessage) (asked : Nat → Prop) (freed : Nat) : Prop where
  tracked : after.Tracked
  content : after.content = before.content
  next : after.nextFragment = before.nextFragment
  flight : before.flight = after.flight + freed
  info : ∀ idx, (after.fragmentState idx).deliveryInfo = (before.fragmentState idx).deliveryInfo
  landed : ∀ idx, after.isInFlight idx = true → before.isInFlight idx = true
  acked : ∀ idx, before.isAcked idx = true → after.isAcked idx = true
  idle : ∀ idx, after.isAcked idx = true → before.isAcked idx = true ∨ after.isInFlight idx = false
  kept : ∀ idx ∈ before.retransmitQueue, after.isAcked idx = false → idx ∈ after.retransmitQueue
  added : ∀ idx ∈ after.retransmitQueue,
    idx ∈ before.retransmitQueue ∨ before.isInFlight idx = true ∨ asked idx

/-- The bytes of a fragment if it is marked, in the queue and not counted yet. -/
def uncountedLen (msg : OutgoingMessage) (toRemove counted : BitSet bitsetWords)
    (entries : List (Nat × Instant)) (idx : Nat) : Nat :=
  if toRemove.get idx = true ∧ counted.get idx = false ∧ ∃ entry ∈ entries, entry.1 = idx then
    msg.fragmentLen idx
  else 0

variable {msg : OutgoingMessage} {start : OutgoingMessage} {work : AckWork} {asked : Nat → Prop}

theorem uncountedLen_cons_of_ne {toRemove counted : BitSet bitsetWords} {entry : Nat × Instant}
    {rest : List (Nat × Instant)} {idx : Nat} (hne : idx ≠ entry.1) :
    msg.uncountedLen toRemove counted (entry :: rest) idx =
      msg.uncountedLen toRemove counted rest idx := by
  unfold uncountedLen
  simp only [List.mem_cons, exists_eq_or_imp, Ne.symm hne, false_or]

/-- The bytes that the clean-up of the in-flight queue reports: those of the marked
fragments in the queue, once each. -/
theorem removed_fold (hnum : msg.numFragments ≤ maxFragmentsPerMessage)
    (toRemove : BitSet bitsetWords) (entries : List (Nat × Instant)) (removed : Nat)
    (counted : BitSet bitsetWords) :
    (entries.foldl
      (fun (acc : Nat × BitSet bitsetWords) entry =>
        if toRemove.get entry.1 ∧ entry.1 < msg.numFragments then
          let (fresh, counted) := acc.2.set entry.1
          (if fresh then acc.1 + msg.fragmentLen entry.1 else acc.1, counted)
        else acc)
      (removed, counted)).1 =
    removed + ∑ idx ∈ Finset.range msg.numFragments,
      msg.uncountedLen toRemove counted entries idx := by
  induction entries generalizing removed counted with
  | nil => simp [uncountedLen]
  | cons entry rest ih =>
      rw [List.foldl_cons]
      by_cases hmarked : toRemove.get entry.1 = true ∧ entry.1 < msg.numFragments
      · have hbound : entry.1 < bitsetWords * 64 := lt_of_lt_of_le hmarked.2 hnum
        rw [if_pos hmarked]
        dsimp only
        rw [ih]
        cases hcounted : counted.get entry.1 with
        | true =>
            have hstale : (counted.set entry.1).1 = false := by
              simp [BitSet.set_fst, hcounted]
            rw [BitSet.set_snd_of_fst hstale, hstale]
            refine congrArg (removed + ·) (Finset.sum_congr rfl fun idx _ => ?_)
            by_cases heq : idx = entry.1
            · simp [uncountedLen, heq, hcounted]
            · exact (uncountedLen_cons_of_ne heq).symm
        | false =>
            have hfresh : (counted.set entry.1).1 = true := by
              simp [BitSet.set_fst, hcounted, hbound]
            -- The sums differ in the fragment that is counted now.
            have hchange := sum_range_change
              (msg.uncountedLen toRemove (counted.set entry.1).2 rest)
              (msg.uncountedLen toRemove counted (entry :: rest)) hmarked.2 fun idx hne => by
                have hget : (counted.set entry.1).2.get idx = counted.get idx := by
                  rw [BitSet.get_set, decide_eq_false hne, Bool.false_and, Bool.or_false]
                rw [uncountedLen_cons_of_ne hne, uncountedLen, uncountedLen, hget]
            have hold : msg.uncountedLen toRemove counted (entry :: rest) entry.1 =
                msg.fragmentLen entry.1 := by
              simp [uncountedLen, hmarked.1, hcounted]
            have hnew : msg.uncountedLen toRemove (counted.set entry.1).2 rest entry.1 = 0 := by
              simp [uncountedLen, BitSet.get_set, hbound]
            rw [hfresh, if_pos rfl]
            omega
      · rw [if_neg hmarked, ih]
        refine congrArg (removed + ·) (Finset.sum_congr rfl fun idx hidx => ?_)
        by_cases heq : idx = entry.1
        · have hclear : ¬ toRemove.get idx = true := fun h =>
            hmarked ⟨heq ▸ h, heq ▸ Finset.mem_range.mp hidx⟩
          simp [uncountedLen, hclear]
        · exact (uncountedLen_cons_of_ne heq).symm

theorem get_foldl_set {queue : List Nat} {bits : BitSet bitsetWords} {idx : Nat}
    (h : (queue.foldl (fun bits idx => (bits.set idx).2) bits).get idx = true) :
    bits.get idx = true ∨ idx ∈ queue := by
  induction queue generalizing bits with
  | nil => exact .inl h
  | cons first rest ih =>
      rcases ih h with hbits | hrest
      · rw [BitSet.get_set, Bool.or_eq_true, Bool.and_eq_true, decide_eq_true_eq] at hbits
        rcases hbits with hold | ⟨rfl, _⟩
        · exact .inl hold
        · exact .inr List.mem_cons_self
      · exact .inr (List.mem_cons_of_mem _ hrest)

/-- The retransmissions of a message after the acknowledged ones are dropped. -/
theorem pruneRetransmits_spec (msg : OutgoingMessage) :
    (∀ idx, idx ∈ msg.pruneRetransmits.retransmitQueue ↔
      idx ∈ msg.retransmitQueue ∧ msg.isAcked idx = false) ∧
    ∀ idx, msg.pruneRetransmits.retransmitBitset.get idx = true →
      idx ∈ msg.pruneRetransmits.retransmitQueue := by
  constructor
  · intro idx
    simp only [pruneRetransmits, List.mem_filter, Bool.and_eq_true, decide_eq_true_eq,
      Bool.not_eq_true', isAcked_eq_false]
  · intro idx hget
    refine (get_foldl_set hget).resolve_left ?_
    simp

/-- The end of `on_ack`, in either case of the clean-up. -/
theorem finishAck_eq (h : work.detectLossesFromHoles.Landing start) (any : Bool)
    (hmsg : msg = if any then work.detectLossesFromHoles.msg.pruneRetransmits
      else work.detectLossesFromHoles.msg) :
    (finishAck work any).2.inFlightQueue = (msg.inFlightQueue.filter fun entry =>
        !work.detectLossesFromHoles.toRemove.get entry.1) ∧
      ((finishAck work any).2.ackView, (finishAck work any).2.nextFragment,
        (finishAck work any).2.fragmentStates, (finishAck work any).2.retransmitQueue,
        (finishAck work any).2.retransmitBitset) =
          (msg.ackView, msg.nextFragment, msg.fragmentStates, msg.retransmitQueue,
            msg.retransmitBitset) ∧
      (finishAck work any).1.newlyCompletedInFlightBytes =
        (msg.cleanupInFlightQueue work.detectLossesFromHoles.toRemove).1 := by
  unfold finishAck
  dsimp only
  rw [← hmsg]
  cases hclean : work.detectLossesFromHoles.needsCleanup with
  | true => exact ⟨rfl, rfl, rfl⟩
  | false =>
      have hclear := h.cleanup hclean
      refine ⟨?_, rfl, ?_⟩
      · refine (List.filter_eq_self.mpr fun entry _ => ?_).symm
        rw [hclear]
        rfl
      · unfold cleanupInFlightQueue
        simp only [hclear, Bool.false_eq_true, false_and, if_false]
        rw [List.foldl_fixed]
        exact h.freed

/-- The bytes that left are those of the marked fragments. -/
theorem flight_of_landing (hstart : start.Tracked) (h : work.Landing start) :
    start.flight = work.msg.flight +
      (work.msg.cleanupInFlightQueue work.toRemove).1 := by
  have hnum : work.msg.numFragments = start.numFragments :=
    congrArg (fun content => content.2.2.2) h.content
  have hlen := fragmentLen_congr h.content
  have hremoved : (work.msg.cleanupInFlightQueue work.toRemove).1 =
      ∑ idx ∈ Finset.range work.msg.numFragments,
        work.msg.uncountedLen work.toRemove .new work.msg.inFlightQueue idx := by
    have hbound : work.msg.numFragments ≤ maxFragmentsPerMessage :=
      hnum ▸ hstart.counted.num_le
    have hfold := removed_fold hbound work.toRemove work.msg.inFlightQueue 0 .new
    rw [Nat.zero_add] at hfold
    exact hfold
  rw [hremoved]
  unfold flight
  rw [hnum, ← Finset.sum_add_distrib]
  -- Fragment by fragment: in flight before, it still is or the cleanup counts its length.
  refine Finset.sum_congr rfl fun idx _ => ?_
  rw [hlen]
  cases hflight : start.isInFlight idx with
  | false =>
      have hidle : work.msg.isInFlight idx = false := by
        rw [← Bool.not_eq_true]
        intro hstill
        exact Bool.false_ne_true (hflight.symm.trans (h.landed idx hstill))
      have hclear : ¬ work.toRemove.get idx = true := fun hget =>
        Bool.false_ne_true (hflight.symm.trans ((h.removed idx).mp hget).1)
      simp [hidle, uncountedLen, hclear]
  | true =>
      obtain ⟨entry, hentry, hidx⟩ := hstart.queued idx hflight
      have hqueued : ∃ entry ∈ work.msg.inFlightQueue, entry.1 = idx :=
        ⟨entry, h.queue ▸ hentry, hidx⟩
      cases hstill : work.msg.isInFlight idx with
      | true =>
          have hclear : ¬ work.toRemove.get idx = true := fun hget =>
            Bool.false_ne_true (((h.removed idx).mp hget).2.symm.trans hstill)
          simp [uncountedLen, hclear]
      | false =>
          have hget := (h.removed idx).mpr ⟨hflight, hstill⟩
          have hcounted : work.msg.uncountedLen work.toRemove .new work.msg.inFlightQueue idx =
              start.fragmentLen idx := by
            rw [uncountedLen, if_pos ⟨hget, BitSet.get_new idx, hqueued⟩, hlen]
          rw [hcounted]
          simp

/-- The bytes in flight are a matter of the content and of the flights. -/
theorem flight_congr {msg changed : OutgoingMessage} (hcontent : changed.content = msg.content)
    (hflight : ∀ idx, changed.isInFlight idx = msg.isInFlight idx) :
    changed.flight = msg.flight := by
  have hnum : changed.numFragments = msg.numFragments :=
    congrArg (fun content => content.2.2.2) hcontent
  unfold flight
  rw [hnum]
  refine Finset.sum_congr rfl fun idx _ => ?_
  rw [hflight, fragmentLen_congr hcontent]

/-- The queues are in order again once the marked fragments are dropped from the one and
the acknowledged ones from the other. -/
theorem settles_of_settling {start after : OutgoingMessage} (hstart : start.Tracked)
    (h : work.Settling start asked) (hview : after.ackView = work.msg.ackView)
    (hnext : after.nextFragment = work.msg.nextFragment)
    (hstates : after.fragmentStates = work.msg.fragmentStates) (hqueue : after.inFlightQueue =
      work.msg.inFlightQueue.filter fun entry => !work.toRemove.get entry.1)
    (hretransmits : ∀ idx, idx ∈ after.retransmitQueue ↔
      idx ∈ work.msg.retransmitQueue ∧ work.msg.isAcked idx = false)
    (hmarked : ∀ idx, after.retransmitBitset.get idx = true → idx ∈ after.retransmitQueue) :
    start.Settles after asked (work.msg.cleanupInFlightQueue work.toRemove).1 := by
  have hacked : after.isAcked = work.msg.isAcked := funext (isAcked_congr hview)
  have hstate : after.fragmentState = work.msg.fragmentState := by
    funext idx
    unfold fragmentState
    rw [hstates]
  have hflight : after.isInFlight = work.msg.isInFlight := by
    funext idx
    unfold isInFlight
    rw [hstate]
  have hcontent : after.content = work.msg.content := content_eq_of_ackView_eq hview
  have hnum : after.numFragments = start.numFragments :=
    congrArg (fun content => content.2.2.2) (hcontent.trans h.content)
  -- The cleanup only filters the queues, so everything said of the work carries over; the marks
  -- are those of the filtered queue.
  refine
    { tracked :=
        { counted := h.counted.of_ackView_eq hview
          states := by rw [hstates, h.states, hstart.states, hnum]
          queued := ?_
          flying := ?_
          noted := ?_
          unacked := ?_
          marked := hmarked
          waiting := ?_ }
      content := hcontent.trans h.content
      next := hnext.trans h.next
      flight := ?_
      info := by rw [hstate]; exact h.info
      landed := by rw [hflight]; exact h.landed
      acked := by rw [hacked]; exact h.acked
      idle := by rw [hacked, hflight]; exact h.idle
      kept := ?_
      added := ?_ }
  · intro idx hidx
    rw [hflight] at hidx
    obtain ⟨entry, hentry, rfl⟩ := hstart.queued idx (h.landed idx hidx)
    refine ⟨entry, ?_, rfl⟩
    rw [hqueue, h.queue, List.mem_filter, Bool.not_eq_true', ← Bool.not_eq_true]
    refine ⟨hentry, fun hget => ?_⟩
    exact Bool.false_ne_true (((h.removed entry.1).mp hget).2.symm.trans hidx)
  · intro entry hentry
    rw [hqueue, h.queue, List.mem_filter, Bool.not_eq_true', ← Bool.not_eq_true] at hentry
    rw [hflight]
    by_contra hidle
    exact hentry.2 ((h.removed entry.1).mpr
      ⟨hstart.flying entry hentry.1, Bool.eq_false_of_not_eq_true hidle⟩)
  · intro idx hidx
    rw [hflight] at hidx
    rw [hstate, h.info]
    exact hstart.noted idx (h.landed idx hidx)
  · intro idx hidx
    rw [hacked]
    exact ((hretransmits idx).mp hidx).2
  · intro idx hunacked hinfo hidle
    rw [hacked] at hunacked
    rw [hstate] at hinfo
    rw [hflight] at hidle
    exact (hretransmits idx).mpr ⟨h.waiting idx hunacked hinfo hidle, hunacked⟩
  · rw [flight_congr hcontent (congrFun hflight)]
    exact flight_of_landing hstart h.toLanding
  · intro idx hidx hunacked
    rw [hacked] at hunacked
    exact (hretransmits idx).mpr ⟨h.kept idx hidx, hunacked⟩
  · intro idx hidx
    exact h.added idx ((hretransmits idx).mp hidx).1

/-- The retransmissions of a message at the end of `on_ack`. -/
theorem pruned_spec (h : work.Settling start asked) {any : Bool}
    (hstale : any = false → ∀ idx, work.msg.isAcked idx = start.isAcked idx) :
    let msg := if any then work.msg.pruneRetransmits else work.msg
    (∀ idx, idx ∈ msg.retransmitQueue ↔
      idx ∈ work.msg.retransmitQueue ∧ work.msg.isAcked idx = false) ∧
    ∀ idx, msg.retransmitBitset.get idx = true → idx ∈ msg.retransmitQueue := by
  cases any with
  | true => exact work.msg.pruneRetransmits_spec
  | false =>
      refine ⟨fun idx => ⟨fun hmem => ⟨hmem, ?_⟩, And.left⟩, h.marked⟩
      rw [hstale rfl]
      exact h.unacked idx hmem

theorem settles_finishAck (hstart : start.Tracked) (h : work.Settling start asked) {any : Bool}
    (hstale : any = false → ∀ idx, work.msg.isAcked idx = start.isAcked idx) :
    start.Settles (finishAck work any).2 asked
      (finishAck work any).1.newlyCompletedInFlightBytes := by
  have hlost := h.detectLossesFromHoles hstart
  have hview := AckWork.ackView_detectLossesFromHoles work
  set lost := work.detectLossesFromHoles with hlostDef
  have hstale' : any = false → ∀ idx, lost.msg.isAcked idx = start.isAcked idx := by
    intro hany idx
    rw [isAcked_congr hview]
    exact hstale hany idx
  obtain ⟨hretransmits, hmarked⟩ := pruned_spec hlost hstale'
  set msg := if any then lost.msg.pruneRetransmits else lost.msg with hmsg
  have hpruned : (msg.ackView, msg.nextFragment, msg.inFlightQueue, msg.fragmentStates,
      (msg.cleanupInFlightQueue lost.toRemove).1) =
      (lost.msg.ackView, lost.msg.nextFragment, lost.msg.inFlightQueue, lost.msg.fragmentStates,
        (lost.msg.cleanupInFlightQueue lost.toRemove).1) := by
    rw [hmsg]
    split <;> rfl
  simp only [Prod.mk.injEq] at hpruned
  obtain ⟨hmsgView, hmsgNext, hmsgQueue, hmsgStates, hmsgFreed⟩ := hpruned
  obtain ⟨hqueue, hrest, hfreed⟩ := finishAck_eq hlost.toLanding any hmsg
  rw [← hlostDef] at hqueue hfreed
  simp only [Prod.mk.injEq] at hrest
  obtain ⟨hview', hnext, hstates, hwaiting, hbits⟩ := hrest
  rw [hfreed, hmsgFreed]
  refine settles_of_settling hstart hlost (hview'.trans hmsgView) (hnext.trans hmsgNext)
    (hstates.trans hmsgStates) (by rw [hqueue, hmsgQueue]) ?_ ?_
  · rw [hwaiting]
    exact hretransmits
  · rw [hwaiting, hbits]
    exact hmarked

/-- The work at the start of an acknowledgement. -/
theorem settling_start {msg start : OutgoingMessage} (hstart : start.Tracked)
    (hview : msg.ackView = start.ackView) (hnext : msg.nextFragment = start.nextFragment)
    (hqueues : (msg.inFlightQueue, msg.retransmitQueue, msg.retransmitBitset) =
      (start.inFlightQueue, start.retransmitQueue, start.retransmitBitset))
    (hstates : msg.fragmentStates = start.fragmentStates) :
    AckWork.Settling start asked ⟨msg, .new, false, ⟨0, 0, none, none, false, none⟩⟩ := by
  have hsame : AckWork.Settling start asked ⟨start, .new, false, ⟨0, 0, none, none, false, none⟩⟩ :=
    { content := rfl
      states := rfl
      next := rfl
      queue := rfl
      info := fun _ => rfl
      landed := fun _ h => h
      removed := by simp
      cleanup := by simp
      freed := rfl
      counted := hstart.counted
      acked := fun _ h => h
      idle := fun _ h => .inl h
      kept := fun _ h => h
      added := fun _ h => .inl h
      unacked := hstart.unacked
      marked := hstart.marked
      waiting := hstart.waiting }
  exact hsame.of_same hview hnext hqueues hstates rfl

/-- An acknowledgement settles the fragments that it newly acknowledges. -/
theorem onAck_settles [FloatOps] (h : msg.Tracked) (baseIndex : Nat) (bitmask : BitVec 64)
    (now : Instant) (total : Nat) :
    msg.Settles (msg.onAck baseIndex bitmask now total).2 (fun _ => False)
        (msg.onAck baseIndex bitmask now total).1.newlyCompletedInFlightBytes ∧
      ∀ idx, (msg.onAck baseIndex bitmask now total).2.isAcked idx =
        (msg.isAcked idx || decide (idx ∈ (msg.collectAckedIndices baseIndex bitmask).1)) := by
  set touched : OutgoingMessage := { msg with lastAckAt := now } with htouched
  set collected := touched.collectAckedIndices baseIndex bitmask with hcollected
  set work : AckWork := ⟨collected.2, .new, false, ⟨0, 0, none, none, false, none⟩⟩ with hwork
  have hstart : work.Settling msg fun _ => False := settling_start h rfl rfl rfl rfl
  obtain ⟨hprocessed, hacked, hstale⟩ := hstart.processAcks h now total collected.1
  have hnamed : ∀ idx, (AckWork.processAcks now total collected.1 work).2.msg.isAcked idx =
      (msg.isAcked idx ||
        decide (idx ∈ (msg.collectAckedIndices baseIndex bitmask).1)) := hacked
  have hunchanged : (AckWork.processAcks now total collected.1 work).1 = false →
      ∀ idx, (AckWork.processAcks now total collected.1 work).2.msg.isAcked idx =
        msg.isAcked idx := by
    intro hnone idx
    rw [hacked]
    by_cases hmem : idx ∈ collected.1
    · have hold : work.msg.isAcked idx = true := hstale hnone idx hmem
      rw [hold]
      exact hold.symm
    · rw [decide_eq_false hmem, Bool.or_false]
      rfl
  simp only [onAck, ← htouched, ← hcollected, ← hwork]
  generalize AckWork.processAcks now total collected.1 work = processed at *
  -- The base moves up, or the duplicate is counted; neither changes what is acknowledged.
  split
  next =>
    have hmoved : AckWork.Settling msg (fun _ => False) { processed.2 with msg := { processed.2.msg with
        lastAckBase := baseIndex, dupAckCount := 0, lastAckAt := now } } :=
      hprocessed.of_same rfl rfl rfl rfl rfl
    refine ⟨settles_finishAck h hmoved hunchanged, fun idx => ?_⟩
    rw [← hnamed, isAcked_congr (ackView_finishAck _ _)]
    rfl
  next =>
    split
    next =>
      have hretransmit := hprocessed.handleFastRetransmit h baseIndex
      have hview := AckWork.ackView_handleFastRetransmit processed.2 baseIndex
      have hmoved : AckWork.Settling msg (fun _ => False) { processed.2.handleFastRetransmit baseIndex with
          msg := { (processed.2.handleFastRetransmit baseIndex).msg with lastAckAt := now } } :=
        hretransmit.of_same rfl rfl rfl rfl rfl
      refine ⟨settles_finishAck h hmoved fun hnone idx => ?_, fun idx => ?_⟩
      · exact (isAcked_congr hview idx).trans (hunchanged hnone idx)
      · rw [← hnamed, isAcked_congr (ackView_finishAck _ _)]
        exact isAcked_congr hview idx
    next =>
      refine ⟨settles_finishAck h hprocessed hunchanged, fun idx => ?_⟩
      rw [← hnamed, isAcked_congr (ackView_finishAck _ _)]

end OutgoingMessage

/-! ## Requests for retransmission -/

namespace SequenceSession

namespace NackWork

/-- The work on a request, as work on an acknowledgement that names nothing. -/
def asAck (work : NackWork) : AckWork :=
  ⟨work.msg, work.toRemove, work.needsCleanup, ⟨0, 0, none, none, false, none⟩⟩

/-- A message while the indices of a request are processed; `bytes` is what was in
flight at the start, of this message and of others. -/
structure Asking (start : OutgoingMessage) (asked : Nat → Prop) (bytes : Nat)
    (work : NackWork) : Prop where
  settling : work.asAck.Settling start asked
  ackView : work.msg.ackView = start.ackView
  inFlight : ∀ others, bytes = others + start.flight → work.inFlight = others + work.msg.flight

variable {start : OutgoingMessage} {asked : Nat → Prop} {bytes idx : Nat} {work : NackWork}

/-- What a request for an unacknowledged fragment does to its message. -/
theorem nackIndex_spec (hunacked : work.msg.isAcked idx = false)
    (hmarked : ∀ other, work.msg.retransmitBitset.get other = true →
      other ∈ work.msg.retransmitQueue) :
    let after := nackIndex work idx
    (after.msg.nextFragment, after.msg.inFlightQueue) =
        (work.msg.nextFragment, work.msg.inFlightQueue) ∧
      (∀ other, other ∈ after.msg.retransmitQueue ↔
        other ∈ work.msg.retransmitQueue ∨ other = idx) ∧
      (∀ other, after.msg.retransmitBitset.get other = true →
        work.msg.retransmitBitset.get other = true ∨ other = idx) ∧
      after.msg.fragmentStates = (if work.msg.isInFlight idx then
        work.msg.fragmentStates.set idx { work.msg.fragmentState idx with lastSent := none }
        else work.msg.fragmentStates) ∧
      after.toRemove = (if work.msg.isInFlight idx then (work.toRemove.set idx).2
        else work.toRemove) ∧
      after.needsCleanup = (if work.msg.isInFlight idx then
        work.needsCleanup || (work.toRemove.set idx).1 else work.needsCleanup) ∧
      after.inFlight = (if work.msg.isInFlight idx then work.inFlight - work.msg.fragmentLen idx
        else work.inFlight) := by
  -- The index is queued once: a mark says that it is queued already.
  have hqueue : ∀ msg : OutgoingMessage, msg.retransmitQueue = work.msg.retransmitQueue →
      msg.retransmitBitset = work.msg.retransmitBitset →
      let queued := if msg.retransmitBitset.get idx then msg
        else { msg with
          retransmitQueue := msg.retransmitQueue ++ [idx]
          retransmitBitset := (msg.retransmitBitset.set idx).2 }
      (∀ other, other ∈ queued.retransmitQueue ↔ other ∈ work.msg.retransmitQueue ∨ other = idx) ∧
        ∀ other, queued.retransmitBitset.get other = true →
          work.msg.retransmitBitset.get other = true ∨ other = idx := by
    intro msg hsame hbits
    dsimp only
    split
    next hget =>
      refine ⟨fun other => ?_, fun other hother => .inl (hbits ▸ hother)⟩
      rw [hsame]
      refine (or_iff_left_of_imp ?_).symm
      rintro rfl
      exact hmarked other (hbits ▸ hget)
    next =>
      refine ⟨fun other => by simp [hsame], fun other hother => ?_⟩
      simp only [BitSet.get_set, Bool.or_eq_true, Bool.and_eq_true, decide_eq_true_eq,
        hbits] at hother
      exact hother.imp id And.left
  have hflight : (work.msg.fragmentState idx).lastSent.isSome = work.msg.isInFlight idx := rfl
  simp only [nackIndex, hunacked, Bool.false_eq_true, if_false, hflight]
  cases work.msg.isInFlight idx with
  | true =>
      obtain ⟨hmem, hbits⟩ := hqueue { work.msg with
        fragmentStates := work.msg.fragmentStates.set idx
          { work.msg.fragmentState idx with lastSent := none } } rfl rfl
      simp only [if_true]
      refine ⟨?_, hmem, hbits, ?_, trivial, trivial, trivial⟩
      all_goals split <;> rfl
  | false =>
      obtain ⟨hmem, hbits⟩ := hqueue work.msg rfl rfl
      simp only [Bool.false_eq_true, if_false]
      refine ⟨?_, hmem, hbits, ?_, trivial, trivial, trivial⟩
      all_goals split <;> rfl

/-- A request takes its fragment out of flight, if it was there. -/
theorem Asking.lands (h : Asking start asked bytes work) (hstart : start.Tracked)
    (hunacked : work.msg.isAcked idx = false) :
    AckWork.Lands work.asAck idx (nackIndex work idx).asAck := by
  obtain ⟨hlt, hcapacity⟩ := h.settling.bounds hstart hunacked
  obtain ⟨hsame, -, -, hstates, hremove, hclean, -⟩ :=
    nackIndex_spec hunacked h.settling.marked
  obtain ⟨hnext, hqueue⟩ := Prod.mk.injEq _ _ _ _ ▸ hsame
  have hcontent := OutgoingMessage.content_eq_of_ackView_eq (ackView_nackIndex work idx)
  cases hflight : work.msg.isInFlight idx with
  | true =>
      rw [hflight] at hstates hremove hclean
      have hclear : work.toRemove.get idx = false := by
        rw [← Bool.not_eq_true]
        intro hget
        have hidle := ((h.settling.removed idx).mp hget).2
        exact Bool.false_ne_true (hidle.symm.trans hflight)
      have hbound : idx < bitsetWords * 64 := hcapacity
      refine AckWork.lands_of_states hlt hcapacity hcontent hnext hqueue hstates ?_ ?_ rfl
      · have hflight' : work.asAck.msg.isInFlight idx = true := hflight
        rw [hflight']
        exact hremove
      · have hflight' : work.asAck.msg.isInFlight idx = true := hflight
        refine hclean.trans ?_
        rw [hflight', if_pos rfl, BitSet.set_fst, hclear]
        simp [hbound]
  | false =>
      rw [hflight] at hstates hremove hclean
      refine AckWork.lands_of_idle hflight hcontent hnext hqueue hstates ?_
      exact Prod.ext hremove (Prod.ext hclean rfl)

theorem Asking.nackIndex (h : Asking start asked bytes work) (hstart : start.Tracked)
    (hasked : asked idx) : Asking start asked bytes (nackIndex work idx) := by
  cases hunacked : work.msg.isAcked idx with
  | true =>
      unfold SequenceSession.nackIndex
      rw [if_pos hunacked]
      exact h
  | false =>
      have hlands := h.lands hstart hunacked
      have hview := ackView_nackIndex work idx
      obtain ⟨-, hmem, hbits, -, -, -, hinFlight⟩ := nackIndex_spec hunacked h.settling.marked
      refine ⟨h.settling.enqueue hlands hview hunacked (.inr hasked) hmem hbits,
        hview.trans h.ackView, fun others hbytes => ?_⟩
      have hin := (OutgoingMessage.isAcked_eq_false.mp hunacked).1
      have hchange := OutgoingMessage.flight_change
        (OutgoingMessage.content_eq_of_ackView_eq hview) hin fun other hne =>
          (hlands.isInFlight other).trans (if_neg hne)
      have hidle : (SequenceSession.nackIndex work idx).msg.isInFlight idx = false :=
        (hlands.isInFlight idx).trans (if_pos rfl)
      rw [hidle] at hchange
      rw [hinFlight, h.inFlight others hbytes]
      cases hflight : work.msg.isInFlight idx with
      | true =>
          simp only [hflight, if_true, Bool.false_eq_true, if_false] at hchange ⊢
          omega
      | false =>
          simp only [hflight, Bool.false_eq_true, if_false] at hchange ⊢
          omega

/-- The whole loop: what it asks for is queued. -/
theorem Asking.foldl (hstart : start.Tracked) (indices : List Nat)
    (hasked : ∀ idx ∈ indices, asked idx) (h : Asking start asked bytes work) :
    Asking start asked bytes (indices.foldl SequenceSession.nackIndex work) ∧
      ∀ idx, idx ∈ work.msg.retransmitQueue ∨ (idx ∈ indices ∧ start.isAcked idx = false) →
        idx ∈ (indices.foldl SequenceSession.nackIndex work).msg.retransmitQueue := by
  induction indices generalizing work with
  | nil => exact ⟨h, fun idx hidx => hidx.resolve_right fun hmem => nomatch hmem.1⟩
  | cons first rest ih =>
      have hnext := h.nackIndex hstart (hasked first List.mem_cons_self)
      obtain ⟨hfinal, hqueued⟩ := ih
        (fun other hmem => hasked other (List.mem_cons_of_mem _ hmem)) hnext
      refine ⟨hfinal, fun idx hidx => hqueued idx ?_⟩
      have hqueue : idx ∈ work.msg.retransmitQueue ∨ (idx = first ∧ start.isAcked idx = false) →
          idx ∈ (SequenceSession.nackIndex work first).msg.retransmitQueue := by
        intro hidx
        cases hunacked : work.msg.isAcked first with
        | true =>
            unfold SequenceSession.nackIndex
            rw [if_pos hunacked]
            refine hidx.resolve_right fun hfirst => ?_
            rw [OutgoingMessage.isAcked_congr h.ackView, ← hfirst.1, hfirst.2] at hunacked
            cases hunacked
        | false =>
            obtain ⟨-, hmem, -⟩ := nackIndex_spec hunacked h.settling.marked
            exact (hmem idx).mpr (hidx.imp id And.left)
      rcases hidx with hold | ⟨hmem, hunacked⟩
      · exact .inl (hqueue (.inl hold))
      · rcases List.mem_cons.mp hmem with hfirst | hrest
        · exact .inl (hqueue (.inr ⟨hfirst, hunacked⟩))
        · exact .inr ⟨hrest, hunacked⟩

/-- The message at the end of a request, in either case of the clean-up. -/
theorem Asking.settles (h : Asking start asked bytes work) (hstart : start.Tracked)
    {after : OutgoingMessage}
    (hafter : after = if work.needsCleanup then { work.msg with
        inFlightQueue := work.msg.inFlightQueue.filter fun entry => !work.toRemove.get entry.1 }
      else work.msg) :
    (∃ freed, start.Settles after asked freed) ∧
      after.ackView = start.ackView ∧ after.retransmitQueue = work.msg.retransmitQueue ∧
      after.flight = work.msg.flight := by
  have hqueue : after.inFlightQueue =
      work.msg.inFlightQueue.filter fun entry => !work.toRemove.get entry.1 := by
    cases hclean : work.needsCleanup with
    | true => rw [hafter, hclean, if_pos rfl]
    | false =>
        have hclear := h.settling.cleanup hclean
        rw [hafter, hclean, if_neg Bool.false_ne_true]
        refine (List.filter_eq_self.mpr fun entry _ => ?_).symm
        rw [Bool.not_eq_true']
        exact hclear entry.1
  have hsame : (after.ackView, after.nextFragment, after.fragmentStates, after.retransmitQueue,
      after.retransmitBitset) =
      (work.msg.ackView, work.msg.nextFragment, work.msg.fragmentStates,
        work.msg.retransmitQueue, work.msg.retransmitBitset) := by
    rw [hafter]
    split <;> rfl
  simp only [Prod.mk.injEq] at hsame
  obtain ⟨hview, hnext, hstates, hwaiting, hbits⟩ := hsame
  have hflight : after.flight = work.msg.flight := by
    refine OutgoingMessage.flight_congr (OutgoingMessage.content_eq_of_ackView_eq hview) ?_
    intro idx
    unfold OutgoingMessage.isInFlight OutgoingMessage.fragmentState
    rw [hstates]
  have hretransmits : ∀ idx, idx ∈ after.retransmitQueue ↔
      idx ∈ work.msg.retransmitQueue ∧ work.msg.isAcked idx = false := by
    intro idx
    rw [hwaiting]
    refine ⟨fun hmem => ⟨hmem, ?_⟩, And.left⟩
    exact (OutgoingMessage.isAcked_congr h.ackView idx).trans (h.settling.unacked idx hmem)
  have hmarked : ∀ idx, after.retransmitBitset.get idx = true → idx ∈ after.retransmitQueue := by
    rw [hwaiting, hbits]
    exact h.settling.marked
  exact ⟨⟨_, OutgoingMessage.settles_of_settling hstart h.settling hview hnext hstates hqueue
    hretransmits hmarked⟩, hview.trans h.ackView, hwaiting, hflight⟩

end NackWork

variable [CongestionControl C]

/-- A request for retransmission settles its message and queues what it asks for. -/
theorem handleNackPacket_settles (session : SequenceSession C) (nack : Nack) (now : Instant)
    {msg : OutgoingMessage} (hget : session.outgoing.get nack.messageId = some msg)
    (h : msg.Tracked) :
    ∃ after freed, msg.Settles after (· ∈ nack.missingIndices) freed ∧
      after.ackView = msg.ackView ∧
      (∀ idx ∈ nack.missingIndices, msg.isAcked idx = false → idx ∈ after.retransmitQueue) ∧
      (session.handleNackPacket nack now).outgoing =
        session.outgoing.insert nack.messageId after ∧
      ∀ others, session.inFlight = others + msg.flight →
        (session.handleNackPacket nack now).inFlight = others + after.flight := by
  set start : NackWork := ⟨msg, session.inFlight, .new, false, false⟩ with hstart
  have hbegin : NackWork.Asking msg (· ∈ nack.missingIndices) session.inFlight start :=
    ⟨OutgoingMessage.settling_start h rfl rfl rfl rfl, rfl, fun _ hbytes => hbytes⟩
  obtain ⟨hasking, hqueued⟩ := hbegin.foldl h nack.missingIndices fun _ hmem => hmem
  set work := nack.missingIndices.foldl nackIndex start
  obtain ⟨after, hafter⟩ : ∃ after, after = if work.needsCleanup then { work.msg with
      inFlightQueue := work.msg.inFlightQueue.filter fun entry => !work.toRemove.get entry.1 }
    else work.msg := ⟨_, rfl⟩
  obtain ⟨⟨freed, hsettles⟩, hview, hwaiting, hflight⟩ := hasking.settles h hafter
  refine ⟨after, freed, hsettles, hview, ?_, ?_, ?_⟩
  · intro idx hmem hunacked
    rw [hwaiting]
    exact hqueued idx (.inr ⟨hmem, hunacked⟩)
  · unfold handleNackPacket
    rw [hget, hafter]
  · intro others hbytes
    unfold handleNackPacket
    rw [hget, hflight]
    exact hasking.inFlight others hbytes

end SequenceSession

end MerkleTox.Sequenced
