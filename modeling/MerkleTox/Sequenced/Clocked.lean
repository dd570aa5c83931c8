import MerkleTox.Sequenced.Updates

/-! # The in-flight queue and the timeout

The in-flight queue may hold several entries of one fragment, but none of a fragment that was
sent behind its last entry. The retransmission timeout is never zero.
-/

namespace MerkleTox.Sequenced

open Proto Library

variable {C : Type}

namespace OutgoingMessage

/-- The last entry of a fragment in the in-flight queue. -/
def lastEntry (msg : OutgoingMessage) (idx : Nat) : Option (Nat × Instant) :=
  (msg.inFlightQueue.filter fun entry => entry.1 == idx).getLast?

/-- No fragment was sent after its last entry in the in-flight queue. -/
def Timely (msg : OutgoingMessage) : Prop :=
  ∀ idx entry sent, msg.lastEntry idx = some entry →
    (msg.fragmentState idx).lastSent = some sent → sent ≤ entry.2

/-- Fragments are taken out of flight, or nothing happens to them. -/
structure Unsends (before after : OutgoingMessage) : Prop where
  queue : ∃ keep : Nat → Bool,
    after.inFlightQueue = before.inFlightQueue.filter fun entry => keep entry.1
  sent : ∀ idx time, (after.fragmentState idx).lastSent = some time →
    (before.fragmentState idx).lastSent = some time

variable {before middle after msg : OutgoingMessage}

theorem Unsends.trans (h : Unsends before middle) (h' : Unsends middle after) :
    Unsends before after := by
  obtain ⟨keep, hqueue⟩ := h.queue
  obtain ⟨keep', hqueue'⟩ := h'.queue
  refine ⟨⟨fun idx => keep' idx && keep idx, ?_⟩, fun idx time hsent => ?_⟩
  · rw [hqueue', hqueue, List.filter_filter]
  · exact h.sent idx time (h'.sent idx time hsent)

theorem Unsends.of_same (hqueue : after.inFlightQueue = before.inFlightQueue)
    (hstates : after.fragmentStates = before.fragmentStates) : Unsends before after := by
  refine ⟨⟨fun _ => true, by rw [hqueue, List.filter_true]⟩, fun idx time hsent => ?_⟩
  rwa [fragmentState, hstates] at hsent

theorem Unsends.refl (msg : OutgoingMessage) : Unsends msg msg := .of_same rfl rfl

/-- One fragment is no longer in flight. -/
theorem Unsends.of_set {idx : Nat} {state : FragmentState} (hstate : state.lastSent = none)
    (hqueue : after.inFlightQueue = before.inFlightQueue)
    (hstates : after.fragmentStates = before.fragmentStates.set idx state) :
    Unsends before after := by
  refine ⟨⟨fun _ => true, by rw [hqueue, List.filter_true]⟩, fun other time hsent => ?_⟩
  by_cases hlt : idx < before.fragmentStates.length
  · rw [fragmentState_of_set hstates hlt] at hsent
    split at hsent
    next =>
      rw [hstate] at hsent
      cases hsent
    next => exact hsent
  · rw [fragmentState, hstates, List.set_eq_of_length_le (Nat.not_lt.mp hlt)] at hsent
    exact hsent

theorem Timely.unsends (h : before.Timely) (hunsends : Unsends before after) : after.Timely := by
  obtain ⟨keep, hqueue⟩ := hunsends.queue
  intro idx entry sent hentry hsent
  refine h idx entry sent ?_ (hunsends.sent idx sent hsent)
  have hfilter : (after.inFlightQueue.filter fun entry => entry.1 == idx) =
      if keep idx then before.inFlightQueue.filter fun entry => entry.1 == idx else [] := by
    rw [hqueue, List.filter_filter]
    split
    next hkeep =>
      refine List.filter_congr fun other _ => ?_
      by_cases heq : other.1 = idx
      · simp [heq, hkeep]
      · simp [heq]
    next hdrop =>
      refine List.filter_eq_nil_iff.mpr fun other _ => ?_
      by_cases heq : other.1 = idx
      · simp [heq, hdrop]
      · simp [heq]
  unfold lastEntry at hentry ⊢
  rw [hfilter] at hentry
  split at hentry
  next => exact hentry
  next => cases hentry

/-- The entry of a fragment that is sent becomes its last one. -/
theorem Timely.sent (h : msg.Timely) (idx : Nat) (now : Instant) (delivered : Nat)
    (lastDelivery : Instant) (appLimited : Bool) (size : Nat) :
    (msg.markFragmentSent idx now delivered lastDelivery appLimited size).2.Timely := by
  intro other entry sent hentry hsent
  unfold markFragmentSent at hentry hsent
  dsimp only at hentry hsent
  unfold lastEntry at hentry
  rw [List.filter_append] at hentry
  by_cases heq : other = idx
  · subst heq
    simp only [List.filter_cons, beq_self_eq_true, if_true, List.filter_nil,
      List.getLast?_append_of_ne_nil _ (List.cons_ne_nil _ _), List.getLast?_singleton,
      Option.some.injEq] at hentry
    subst hentry
    by_cases hlt : other < msg.fragmentStates.length
    · rw [fragmentState_of_set rfl hlt, if_pos rfl, Option.some.injEq] at hsent
      exact le_of_eq hsent.symm
    · simp only [fragmentState, List.set_eq_of_length_le (Nat.not_lt.mp hlt)] at hsent
      rw [List.getElem?_eq_none (Nat.not_lt.mp hlt)] at hsent
      cases hsent
  · have hsame : ([(idx, now)] : List (Nat × Instant)).filter (fun entry => entry.1 == other) =
      [] := by
      simp [Ne.symm heq]
    rw [hsame, List.append_nil] at hentry
    refine h other entry sent hentry ?_
    rw [← hsent, fragmentState, fragmentState, List.getElem?_set_ne (Ne.symm heq)]

theorem Timely.popInFlight (h : msg.Timely) (idx : Nat) :
    (FlushState.popInFlight idx msg).Timely := by
  intro other entry sent hentry hsent
  refine h other entry sent ?_ ?_
  · unfold lastEntry FlushState.popInFlight at hentry
    unfold lastEntry
    dsimp only at hentry
    cases hqueue : msg.inFlightQueue with
    | nil =>
        rw [hqueue] at hentry
        exact hentry
    | cons front rest =>
        rw [hqueue, List.tail_cons] at hentry
        rw [List.filter_cons]
        split
        next =>
          have hne : (rest.filter fun entry => entry.1 == other) ≠ [] := by
            intro hnil
            rw [hnil] at hentry
            cases hentry
          rwa [List.getLast?_cons_of_ne_nil hne]
        next => exact hentry
  · unfold FlushState.popInFlight fragmentState at hsent
    dsimp only at hsent
    by_cases hlt : idx < msg.fragmentStates.length
    · by_cases heq : other = idx
      · subst heq
        rw [List.getElem?_set_self hlt] at hsent
        exact hsent
      · rwa [List.getElem?_set_ne (Ne.symm heq)] at hsent
    · rwa [List.set_eq_of_length_le (Nat.not_lt.mp hlt)] at hsent

end OutgoingMessage

namespace AckWork

open OutgoingMessage

theorem unsends_triggerLoss (work : AckWork) (idx : Nat) :
    work.msg.Unsends (work.triggerLoss idx).msg := by
  have hmsg : (work.triggerLoss idx).msg = { work.msg with
      retransmitQueue := work.msg.retransmitQueue ++ [idx]
      retransmitBitset := (work.msg.retransmitBitset.set idx).2
      fragmentStates := work.msg.fragmentStates.set idx
        { work.msg.fragmentState idx with lastSent := none } } := by
    simp only [triggerLoss]
    split
    next => rw [msg_markForRemoval]
    next => rfl
  rw [hmsg]
  exact .of_set rfl rfl rfl

theorem unsends_handleFastRetransmit (work : AckWork) (baseIndex : Nat) :
    work.msg.Unsends (work.handleFastRetransmit baseIndex).msg := by
  simp only [handleFastRetransmit]
  split
  next =>
    split
    next =>
      refine Unsends.trans ?_ (unsends_triggerLoss _ baseIndex)
      exact .of_same rfl rfl
    next => exact .of_same rfl rfl
  next => exact .refl _

theorem unsends_detectLossAt (maxSent : Option Instant) (ackedCount ackedSoFar : Nat)
    (work : AckWork) (idx : Nat) :
    work.msg.Unsends (detectLossAt maxSent ackedCount (ackedSoFar, work) idx).2.msg := by
  unfold detectLossAt
  dsimp only
  split
  next => exact .refl _
  next =>
    split
    next => exact unsends_triggerLoss work idx
    next => exact .refl _

theorem unsends_detectLossesFromHoles (work : AckWork) :
    work.msg.Unsends work.detectLossesFromHoles.msg :=
  work.detectLossesFromHoles_keeps (fun after => work.msg.Unsends after.msg) (.refl _)
    fun maxSent ackedCount acc idx hacc =>
      hacc.trans (unsends_detectLossAt maxSent ackedCount acc.1 acc.2 idx)

variable [FloatOps]

theorem unsends_processSingleAck (work : AckWork) (idx : Nat) (now : Instant) (total : Nat) :
    work.msg.Unsends (work.processSingleAck idx now total).2.msg := by
  unfold processSingleAck
  dsimp only
  split
  next => exact .refl _
  next =>
    split
    next =>
      split
      next =>
        rw [msg_recordDelivery]
        exact .of_set rfl rfl rfl
      next => exact .of_set rfl rfl rfl
    next => exact .of_same rfl rfl

theorem unsends_processAcks (now : Instant) (total : Nat) (indices : List Nat) (work : AckWork) :
    work.msg.Unsends (processAcks now total indices work).2.msg := by
  induction indices generalizing work with
  | nil => exact .refl _
  | cons idx rest ih => exact (work.unsends_processSingleAck idx now total).trans (ih _)

end AckWork

namespace OutgoingMessage

theorem unsends_finishAck (work : AckWork) (anyNewlyAcked : Bool) :
    work.msg.Unsends (finishAck work anyNewlyAcked).2 := by
  refine work.unsends_detectLossesFromHoles.trans ?_
  simp only [finishAck]
  generalize work.detectLossesFromHoles = found
  have hpruned : found.msg.Unsends (if anyNewlyAcked then found.msg.pruneRetransmits
      else found.msg) := by
    split <;> exact .of_same rfl rfl
  split
  next =>
    refine hpruned.trans ⟨⟨fun idx => !found.toRemove.get idx, rfl⟩, fun _ _ hsent => hsent⟩
  next => exact hpruned

/-- An acknowledgement only takes fragments out of flight. -/
theorem unsends_onAck [FloatOps] (msg : OutgoingMessage) (baseIndex : Nat) (bitmask : BitVec 64)
    (now : Instant) (total : Nat) : msg.Unsends (msg.onAck baseIndex bitmask now total).2 := by
  set touched : OutgoingMessage := { msg with lastAckAt := now } with htouched
  set collected := touched.collectAckedIndices baseIndex bitmask with hcollected
  set work : AckWork := ⟨collected.2, .new, false, ⟨0, 0, none, none, false, none⟩⟩ with hwork
  have hstart : msg.Unsends work.msg := .of_same rfl rfl
  have hprocessed := hstart.trans (work.unsends_processAcks now total collected.1)
  simp only [onAck, ← htouched, ← hcollected, ← hwork]
  generalize AckWork.processAcks now total collected.1 work = processed at hprocessed
  refine Unsends.trans ?_ (unsends_finishAck _ _)
  split
  next => exact hprocessed.trans (.of_same rfl rfl)
  next =>
    split
    next =>
      exact (hprocessed.trans (processed.2.unsends_handleFastRetransmit baseIndex)).trans
        (.of_same rfl rfl)
    next => exact hprocessed

theorem unsends_nackIndex (work : SequenceSession.NackWork) (idx : Nat) :
    work.msg.Unsends (SequenceSession.nackIndex work idx).msg := by
  unfold SequenceSession.nackIndex
  dsimp only
  split
  next => exact .refl _
  next =>
    cases hsent : (work.msg.fragmentState idx).lastSent.isSome with
    | true =>
        simp only [if_true]
        split <;> exact .of_set rfl rfl rfl
    | false =>
        simp only [Bool.false_eq_true, if_false]
        split <;> exact .of_same rfl rfl

theorem unsends_finish (work : SequenceSession.NackWork) : work.msg.Unsends work.finish := by
  unfold SequenceSession.NackWork.finish
  split
  next => exact ⟨⟨fun idx => !work.toRemove.get idx, rfl⟩, fun _ _ hsent => hsent⟩
  next => exact .refl _

/-- Every update of a message keeps the order of sending. -/
theorem Timely.update {delivered : Nat} {before : Option OutgoingMessage} {msg : OutgoingMessage}
    (hupdate : Update delivered before msg) (h : ∀ old ∈ before, old.Timely) : msg.Timely := by
  cases hupdate with
  | queued hsize hnew =>
      intro idx entry sent hentry
      unfold new at hnew
      dsimp only at hnew
      split at hnew
      · cases hnew
      · cases hnew
        cases hentry
  | retimed old timeout => exact (h old rfl).unsends (.of_same rfl rfl)
  | sent old idx now lastDelivery appLimited =>
      exact (h old rfl).sent idx now delivered lastDelivery appLimited _
  | advanced old => exact (h old rfl).unsends (.of_same rfl rfl)
  | popped old =>
      refine (h old rfl).unsends (.of_same ?_ (fragmentStates_popRetransmit old))
      unfold FlushState.popRetransmit
      split <;> rfl
  | timedOut old idx => exact (h old rfl).popInFlight idx
  | nacked old indices inFlight =>
      refine Timely.unsends ?_ (unsends_finish _)
      generalize hwork : (⟨old, inFlight, .new, false, false⟩ : SequenceSession.NackWork) = work
      have hstart : work.msg.Timely := by
        rw [← hwork]
        exact h old rfl
      clear hwork
      induction indices generalizing work with
      | nil => exact hstart
      | cons idx rest ih => exact ih _ (hstart.unsends (unsends_nackIndex work idx))

end OutgoingMessage

namespace SequenceSession

/-- The timeout is never zero, and fragments are not sent behind the in-flight queue. -/
structure Clocked (session : SequenceSession C) : Prop where
  rto_pos : 0 < session.rtt.rto
  timely : session.EveryMessage fun _ => OutgoingMessage.Timely

theorem rto_update_pos [FloatOps] (rtt : RttEstimator) (sample : Duration) :
    0 < (rtt.update sample).rto :=
  lt_of_lt_of_le (by decide) (Nat.le_max_left RttEstimator.minRto _)

theorem SenderUpdate.rto_pos [FloatOps] [CongestionControl C] {session after : SequenceSession C}
    (h : session.SenderUpdate after) (hpos : 0 < session.rtt.rto) : 0 < after.rtt.rto := by
  cases h with
  | aside hview | message id hupdate hview | removed keep hview =>
      simp only [sendingView, Prod.mk.injEq] at hview
      rwa [hview.2.1]
  | sampled sample hview =>
      simp only [sendingView, Prod.mk.injEq] at hview
      rw [hview.2.1]
      exact rto_update_pos _ _
  | @acked ack msg now hget hview =>
      simp only [sendingView, Prod.mk.injEq] at hview
      rw [hview.2.1]
      cases hmin : (msg.onAck ack.baseIndex ack.bitmask now session.deliveredBytes).1.minRtt with
      | none =>
          have hrtt : (session.acknowledge ack msg now).rtt = session.rtt := by
            simp only [acknowledge, hmin, apply_ite SequenceSession.rtt, pushEvent, ite_self]
          rw [hrtt]
          exact hpos
      | some minRtt =>
          have hrtt : (session.acknowledge ack msg now).rtt = session.rtt.update minRtt := by
            simp only [acknowledge, hmin, apply_ite SequenceSession.rtt, pushEvent, ite_self]
          rw [hrtt]
          exact rto_update_pos _ _

theorem clocked [FloatOps] [CongestionControl C] (config : SessionConfig C)
    (operations : List Operation) : (runFrom step (.new config) operations).Clocked := by
  have hinitial : 0 < RttEstimator.new.rto := by decide
  refine runFrom_of_updates ?_ config operations ⟨hinitial, nofun⟩
  intro session after hupdate hclocked
  refine ⟨hupdate.rto_pos hclocked.rto_pos, hupdate.everyMessage id .update ?_ hclocked.timely⟩
  exact fun ack now htimely => htimely.unsends (OutgoingMessage.unsends_onAck _ _ _ _ _)

end SequenceSession

end MerkleTox.Sequenced
