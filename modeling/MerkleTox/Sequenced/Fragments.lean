import Mathlib.Algebra.BigOperators.Intervals
import MerkleTox.Sequenced.FlushMoves

/-! # Fragments of an outgoing message

A fragment that was sent is acknowledged, in flight, or waiting for its
retransmission, and the two queues of a message say which. `Tracked` is the invariant;
this module shows what sending, acknowledging and asking for a fragment do to it and to
the bytes in flight.
-/

namespace MerkleTox.Sequenced

open Proto

/-- Two sums that differ in one place. -/
theorem sum_range_change (first second : Nat → Nat) {count idx : Nat} (hlt : idx < count)
    (hsame : ∀ other, other ≠ idx → first other = second other) :
    (∑ other ∈ Finset.range count, first other) + second idx =
      (∑ other ∈ Finset.range count, second other) + first idx := by
  have hmem := Finset.mem_range.mpr hlt
  rw [← Finset.add_sum_erase _ first hmem, ← Finset.add_sum_erase _ second hmem]
  have hrest : (∑ other ∈ (Finset.range count).erase idx, first other) =
      ∑ other ∈ (Finset.range count).erase idx, second other :=
    Finset.sum_congr rfl fun other hother => hsame other (Finset.ne_of_mem_erase hother)
  omega

namespace OutgoingMessage

/-- The fragment was sent and is neither acknowledged nor given up for lost. -/
def isInFlight (msg : OutgoingMessage) (idx : Nat) : Bool :=
  (msg.fragmentState idx).lastSent.isSome

/-- The bytes of a message that are in flight. -/
def flight (msg : OutgoingMessage) : Nat :=
  ∑ idx ∈ Finset.range msg.numFragments, if msg.isInFlight idx then msg.fragmentLen idx else 0

/-- A fragment that was never sent and that nobody has asked for. -/
def Fresh (msg : OutgoingMessage) (idx : Nat) : Prop :=
  msg.isAcked idx = false ∧ (msg.fragmentState idx).deliveryInfo.isSome = false ∧
    idx ∉ msg.retransmitQueue

structure Tracked (msg : OutgoingMessage) : Prop where
  counted : msg.AcksCounted
  states : msg.fragmentStates.length = msg.numFragments
  queued : ∀ idx, msg.isInFlight idx = true → ∃ entry ∈ msg.inFlightQueue, entry.1 = idx
  flying : ∀ entry ∈ msg.inFlightQueue, msg.isInFlight entry.1 = true
  noted : ∀ idx, msg.isInFlight idx = true →
    (msg.fragmentState idx).deliveryInfo.isSome = true
  unacked : ∀ idx ∈ msg.retransmitQueue, msg.isAcked idx = false
  marked : ∀ idx, msg.retransmitBitset.get idx = true → idx ∈ msg.retransmitQueue
  waiting : ∀ idx, msg.isAcked idx = false →
    (msg.fragmentState idx).deliveryInfo.isSome = true → msg.isInFlight idx = false →
      idx ∈ msg.retransmitQueue

variable {idx : Nat} {msg : OutgoingMessage}

theorem isAcked_eq_false :
    msg.isAcked idx = false ↔ idx < msg.numFragments ∧ msg.ackedBitset.get idx = false := by
  unfold isAcked
  split
  next hout => exact iff_of_false nofun fun h => absurd h.1 (Nat.not_lt.mpr hout)
  next hin => exact (and_iff_right (Nat.not_le.mp hin)).symm

/-- The states of a message in which one of them is replaced. -/
theorem fragmentState_of_set {msg changed : OutgoingMessage} {state : FragmentState}
    (hstates : changed.fragmentStates = msg.fragmentStates.set idx state)
    (hlt : idx < msg.fragmentStates.length) (other : Nat) :
    changed.fragmentState other = if other = idx then state else msg.fragmentState other := by
  unfold fragmentState
  rw [hstates]
  split
  next heq => rw [heq, List.getElem?_set_self hlt, Option.getD_some]
  next hne => rw [List.getElem?_set_ne (Ne.symm hne)]

theorem fragmentLen_congr {msg changed : OutgoingMessage} (h : changed.content = msg.content)
    (idx : Nat) : changed.fragmentLen idx = msg.fragmentLen idx := by
  simp only [content, Prod.mk.injEq] at h
  simp [fragmentLen, h]

theorem Tracked.lt_of_isInFlight (h : msg.Tracked) (hflight : msg.isInFlight idx = true) :
    idx < msg.numFragments := by
  by_contra hout
  rw [← h.states] at hout
  have hstate : msg.fragmentState idx = default := by
    unfold fragmentState
    rw [List.getElem?_eq_none (Nat.not_lt.mp hout)]
    rfl
  rw [isInFlight, hstate] at hflight
  cases hflight

/-- The bytes in flight of a message that differs from another in the flight of one
fragment. -/
theorem flight_change {msg changed : OutgoingMessage} (hcontent : changed.content = msg.content)
    (hlt : idx < msg.numFragments)
    (hsame : ∀ other, other ≠ idx → changed.isInFlight other = msg.isInFlight other) :
    changed.flight + (if msg.isInFlight idx then msg.fragmentLen idx else 0) =
      msg.flight + (if changed.isInFlight idx then msg.fragmentLen idx else 0) := by
  have hnum : changed.numFragments = msg.numFragments :=
    congrArg (fun content => content.2.2.2) hcontent
  have hlen := fragmentLen_congr hcontent
  unfold flight
  simp only [hlen, hnum]
  refine sum_range_change
    (fun other => if changed.isInFlight other then msg.fragmentLen other else 0)
    (fun other => if msg.isInFlight other then msg.fragmentLen other else 0) hlt ?_
  intro other hne
  simp only [hsame other hne]

/-! ### Sending -/

/-- What sending a fragment changes: it is in flight, at the end of the queue. -/
structure MarkedSent (msg : OutgoingMessage) (idx : Nat) (marked : OutgoingMessage) : Prop where
  ackView : marked.ackView = msg.ackView
  states : marked.fragmentStates.length = msg.fragmentStates.length
  next : marked.nextFragment = msg.nextFragment
  waiting : marked.retransmitQueue = msg.retransmitQueue
  waitingBits : marked.retransmitBitset = msg.retransmitBitset
  queue : ∃ now, marked.inFlightQueue = msg.inFlightQueue ++ [(idx, now)]
  isInFlight : ∀ other,
    marked.isInFlight other = if other = idx then true else msg.isInFlight other
  info : ∀ other, (marked.fragmentState other).deliveryInfo.isSome =
    if other = idx then true else (msg.fragmentState other).deliveryInfo.isSome

theorem isAcked_congr {msg changed : OutgoingMessage} (h : changed.ackView = msg.ackView)
    (idx : Nat) : changed.isAcked idx = msg.isAcked idx := by
  simp only [ackView, content, Prod.mk.injEq] at h
  simp [isAcked, h]

theorem markFragmentSent_spec (hlt : idx < msg.fragmentStates.length) (now : Instant)
    (delivered : Nat) (lastDelivery : Instant) (appLimited : Bool) (size : Nat) :
    msg.MarkedSent idx
      (msg.markFragmentSent idx now delivered lastDelivery appLimited size).2 := by
  set marked := (msg.markFragmentSent idx now delivered lastDelivery appLimited size).2 with heq
  have hstate : ∀ other, (marked.fragmentState other).lastSent.isSome =
        (if other = idx then true else (msg.fragmentState other).lastSent.isSome) ∧
      (marked.fragmentState other).deliveryInfo.isSome =
        if other = idx then true else (msg.fragmentState other).deliveryInfo.isSome := by
    intro other
    rw [heq, fragmentState_of_set rfl hlt other]
    split
    next =>
      refine ⟨rfl, ?_⟩
      split <;> simp_all
    next => exact ⟨rfl, rfl⟩
  exact
    { ackView := rfl
      states := List.length_set
      next := rfl
      waiting := rfl
      waitingBits := rfl
      queue := ⟨now, rfl⟩
      isInFlight := fun other => (hstate other).1
      info := fun other => (hstate other).2 }

section Send

variable {msg marked : OutgoingMessage} {idx : Nat}

theorem Tracked.markedSent (h : msg.Tracked) (hsent : msg.MarkedSent idx marked) :
    marked.Tracked := by
  obtain ⟨now, hqueue⟩ := hsent.queue
  have hnum : marked.numFragments = msg.numFragments :=
    congrArg (fun view => view.1.2.2.2) hsent.ackView
  refine
    { counted := h.counted.of_ackView_eq hsent.ackView
      states := by rw [hsent.states, h.states, hnum]
      queued := ?_
      flying := ?_
      noted := ?_
      unacked := ?_
      marked := ?_
      waiting := ?_ }
  -- The fragment sent joins the end of the queue; for the others nothing changes.
  · intro other hother
    rw [hqueue]
    by_cases heq : other = idx
    · exact ⟨(idx, now), by simp, heq.symm⟩
    · rw [hsent.isInFlight, if_neg heq] at hother
      obtain ⟨entry, hentry, hidx⟩ := h.queued other hother
      exact ⟨entry, List.mem_append_left _ hentry, hidx⟩
  · intro entry hentry
    rw [hqueue] at hentry
    rw [hsent.isInFlight]
    split
    next => rfl
    next hne =>
      rcases List.mem_append.mp hentry with hold | hnew
      · exact h.flying entry hold
      · rw [List.mem_singleton.mp hnew] at hne
        exact absurd rfl hne
  · intro other hother
    rw [hsent.isInFlight] at hother
    rw [hsent.info]
    split at hother
    next heq => rw [if_pos heq]
    next hne =>
      rw [if_neg hne]
      exact h.noted other hother
  · intro other hother
    rw [hsent.waiting] at hother
    rw [isAcked_congr hsent.ackView]
    exact h.unacked other hother
  · intro other hother
    rw [hsent.waitingBits] at hother
    rw [hsent.waiting]
    exact h.marked other hother
  · intro other hacked hinfo hidle
    rw [hsent.isInFlight] at hidle
    split at hidle
    next => cases hidle
    next hne =>
      rw [hsent.info, if_neg hne] at hinfo
      rw [isAcked_congr hsent.ackView] at hacked
      rw [hsent.waiting]
      exact h.waiting other hacked hinfo hidle

/-- The next retransmission may go once its fragment is in flight. -/
theorem Tracked.popRetransmit (h : msg.Tracked) {rest : List Nat}
    (hqueue : msg.retransmitQueue = idx :: rest) (hflight : msg.isInFlight idx = true) :
    (FlushState.popRetransmit msg).Tracked := by
  unfold FlushState.popRetransmit
  rw [hqueue]
  refine
    { counted := h.counted.of_ackView_eq rfl
      states := h.states
      queued := h.queued
      flying := h.flying
      noted := h.noted
      unacked := fun other hother => h.unacked other (hqueue ▸ List.mem_cons_of_mem _ hother)
      marked := ?_
      waiting := ?_ }
  · intro other hother
    rw [BitSet.get_unset, Bool.and_eq_true, Bool.not_eq_true', decide_eq_false_iff_not] at hother
    have hmem := h.marked other hother.1
    rw [hqueue] at hmem
    exact (List.mem_cons.mp hmem).resolve_left hother.2
  · intro other hacked hinfo hidle
    have hmem := h.waiting other hacked hinfo hidle
    rw [hqueue] at hmem
    refine (List.mem_cons.mp hmem).resolve_left ?_
    rintro rfl
    exact Bool.false_ne_true (hidle.symm.trans hflight)

theorem fragmentState_popInFlight (hlt : idx < msg.fragmentStates.length) (other : Nat) :
    ((FlushState.popInFlight idx msg).fragmentState other).lastSent =
        (msg.fragmentState other).lastSent ∧
      ((FlushState.popInFlight idx msg).fragmentState other).deliveryInfo =
        (msg.fragmentState other).deliveryInfo := by
  rw [fragmentState_of_set rfl hlt other]
  split
  next heq => rw [heq]; exact ⟨rfl, rfl⟩
  next => exact ⟨rfl, rfl⟩

/-- The head of the in-flight queue may go if its fragment is in the queue again. -/
theorem Tracked.popInFlight (h : msg.Tracked) {first : Instant} {rest : List (Nat × Instant)}
    (hqueue : msg.inFlightQueue = (idx, first) :: rest) (hagain : ∃ entry ∈ rest, entry.1 = idx) :
    (FlushState.popInFlight idx msg).Tracked := by
  have hflight : msg.isInFlight idx = true := h.flying (idx, first) (hqueue ▸ List.mem_cons_self)
  have hstate := fragmentState_popInFlight (h.states ▸ h.lt_of_isInFlight hflight)
  have hsame : ∀ other, (FlushState.popInFlight idx msg).isInFlight other =
      msg.isInFlight other := by
    intro other
    unfold isInFlight
    rw [(hstate other).1]
  have htail : (FlushState.popInFlight idx msg).inFlightQueue = rest := by
    unfold FlushState.popInFlight
    rw [hqueue]
    rfl
  refine
    { counted := h.counted.of_ackView_eq rfl
      states := List.length_set.trans h.states
      queued := ?_
      flying := ?_
      noted := ?_
      unacked := h.unacked
      marked := h.marked
      waiting := ?_ }
  · intro other hother
    rw [hsame] at hother
    rw [htail]
    obtain ⟨entry, hentry, rfl⟩ := h.queued other hother
    rw [hqueue] at hentry
    rcases List.mem_cons.mp hentry with rfl | hrest
    · exact hagain
    · exact ⟨entry, hrest, rfl⟩
  · intro entry hentry
    rw [htail] at hentry
    rw [hsame]
    exact h.flying entry (hqueue ▸ List.mem_cons_of_mem _ hentry)
  · intro other hother
    rw [hsame] at hother
    rw [(hstate other).2]
    exact h.noted other hother
  · intro other hacked hinfo hidle
    rw [hsame] at hidle
    rw [(hstate other).2] at hinfo
    exact h.waiting other hacked hinfo hidle

/-- The ways in which a flush sends a fragment of a message: once more, as the next
retransmission, because it timed out, or for the first time. If `careful` holds, the
last is not done with a fragment that is acknowledged already. -/
inductive Sends (careful : Prop) (msg : OutgoingMessage) (idx : Nat) : OutgoingMessage → Prop
  | again {marked : OutgoingMessage} (hsent : msg.MarkedSent idx marked)
      (hknown : msg.isInFlight idx = true ∨ idx ∈ msg.retransmitQueue) :
        Sends careful msg idx marked
  | retransmitted {marked : OutgoingMessage} (hsent : msg.MarkedSent idx marked)
      {rest : List Nat} (hqueue : msg.retransmitQueue = idx :: rest) :
      Sends careful msg idx (FlushState.popRetransmit marked)
  | timedOut {marked : OutgoingMessage} (hsent : msg.MarkedSent idx marked) {first : Instant}
      {rest : List (Nat × Instant)} (hqueue : msg.inFlightQueue = (idx, first) :: rest) :
      Sends careful msg idx (FlushState.popInFlight idx marked)
  | advanced {marked : OutgoingMessage} (hsent : msg.MarkedSent idx marked)
      (hnext : idx = msg.nextFragment) (hlt : idx < msg.numFragments)
      (hunacked : careful → msg.isAcked idx = false) :
      Sends careful msg idx (FlushState.advanceNext marked)

variable {careful : Prop} {after : OutgoingMessage}

theorem Sends.lt (hsends : Sends careful msg idx after) (h : msg.Tracked) :
    idx < msg.numFragments := by
  cases hsends with
  | again hsent hknown =>
      rcases hknown with hflight | hwaiting
      · exact h.lt_of_isInFlight hflight
      · exact (isAcked_eq_false.mp (h.unacked idx hwaiting)).1
  | retransmitted hsent hqueue =>
      exact (isAcked_eq_false.mp (h.unacked idx (hqueue ▸ List.mem_cons_self))).1
  | timedOut hsent hqueue =>
      exact h.lt_of_isInFlight (h.flying _ (hqueue ▸ List.mem_cons_self))
  | advanced hsent hnext hlt hunacked => exact hlt

theorem Sends.ackView (hsends : Sends careful msg idx after) : after.ackView = msg.ackView := by
  cases hsends with
  | again hsent hknown => exact hsent.ackView
  | retransmitted hsent hqueue => exact (FlushState.ackView_popRetransmit _).trans hsent.ackView
  | timedOut hsent hqueue => exact hsent.ackView
  | advanced hsent hnext hlt hunacked => exact hsent.ackView

theorem fragmentStates_popRetransmit (msg : OutgoingMessage) :
    (FlushState.popRetransmit msg).fragmentStates = msg.fragmentStates := by
  unfold FlushState.popRetransmit
  split <;> rfl

section

variable (hsends : Sends careful msg idx after) (h : msg.Tracked)
include hsends h

/-- After the send, the fragment and what was in flight are in flight, and noted. -/
theorem Sends.states (other : Nat) :
    after.isInFlight other = (if other = idx then true else msg.isInFlight other) ∧
      (after.fragmentState other).deliveryInfo.isSome =
        if other = idx then true else (msg.fragmentState other).deliveryInfo.isSome := by
  have hlt := hsends.lt h
  cases hsends with
  | again hsent hknown => exact ⟨hsent.isInFlight other, hsent.info other⟩
  | @retransmitted marked hsent rest hqueue =>
      unfold isInFlight fragmentState
      rw [fragmentStates_popRetransmit]
      exact ⟨hsent.isInFlight other, hsent.info other⟩
  | @timedOut marked hsent first rest hqueue =>
      have hlen : idx < marked.fragmentStates.length := by
        rw [hsent.states, h.states]
        exact hlt
      obtain ⟨hlast, hinfo⟩ := fragmentState_popInFlight hlen other
      unfold isInFlight
      rw [hlast, hinfo]
      exact ⟨hsent.isInFlight other, hsent.info other⟩
  | advanced hsent hnext hlt hunacked => exact ⟨hsent.isInFlight other, hsent.info other⟩

theorem Sends.tracked : after.Tracked := by
  cases hsends with
  | again hsent hknown => exact h.markedSent hsent
  | @retransmitted marked hsent rest hqueue =>
      have hflight : marked.isInFlight idx = true := by rw [hsent.isInFlight, if_pos rfl]
      exact (h.markedSent hsent).popRetransmit (hsent.waiting.trans hqueue) hflight
  | @timedOut marked hsent first rest hqueue =>
      obtain ⟨now, happend⟩ := hsent.queue
      rw [hqueue, List.cons_append] at happend
      exact (h.markedSent hsent).popInFlight happend ⟨(idx, now), by simp, rfl⟩
  | advanced hsent hnext hlt hunacked =>
      have hmarked := h.markedSent hsent
      exact
        { counted := hmarked.counted.of_ackView_eq rfl
          states := hmarked.states
          queued := hmarked.queued
          flying := hmarked.flying
          noted := hmarked.noted
          unacked := hmarked.unacked
          marked := hmarked.marked
          waiting := hmarked.waiting }

/-- Sending a fragment puts its bytes in flight, once. -/
theorem Sends.flight :
    after.flight + (if msg.isInFlight idx then msg.fragmentLen idx else 0) =
      msg.flight + msg.fragmentLen idx := by
  have hchange := flight_change (content_eq_of_ackView_eq hsends.ackView) (hsends.lt h)
    fun other hne => by rw [(hsends.states h other).1, if_neg hne]
  rwa [(hsends.states h idx).1, if_pos rfl, if_pos rfl] at hchange

/-- Sending a fragment leaves the others fresh. -/
theorem Sends.fresh (other : Nat) :
    after.Fresh other ↔ msg.Fresh other ∧ other ≠ idx := by
  unfold Fresh
  rw [isAcked_congr hsends.ackView, (hsends.states h other).2]
  by_cases heq : other = idx
  · simp [heq]
  · rw [if_neg heq]
    have hqueue : other ∈ after.retransmitQueue ↔ other ∈ msg.retransmitQueue := by
      cases hsends with
      | again hsent hknown => rw [hsent.waiting]
      | @retransmitted marked hsent rest hqueue =>
          unfold FlushState.popRetransmit
          rw [hsent.waiting, hqueue]
          simp [heq]
      | timedOut hsent hqueue =>
          exact iff_of_eq (congrArg (other ∈ ·) hsent.waiting)
      | advanced hsent hnext hlt hunacked =>
          exact iff_of_eq (congrArg (other ∈ ·) hsent.waiting)
    rw [hqueue]
    simp [heq]

end

end Send

end OutgoingMessage

end MerkleTox.Sequenced
