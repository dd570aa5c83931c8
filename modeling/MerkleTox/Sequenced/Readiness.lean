import MerkleTox.Sequenced.InFlight

/-! # The readiness test and the sender

`flush_packets` asks the scheduler for a message whose next fragment may be sent, and
`send_next_fragment_for_message` then chooses the fragment anew. The readiness test passes
over a retransmission or a timed-out fragment that is acknowledged, sent again or outside of
the windows; the sender takes the first one it finds.
-/

namespace MerkleTox.Sequenced

open Proto Library

variable {idx rounds : Nat}
variable {C : Type} [CongestionControl C]

namespace SequenceSession

section Tests

variable (session : SequenceSession C) (now : Instant) (anyDataSent : Bool)
variable (msg : OutgoingMessage)

/-- `in_flight / ESTIMATED_PAYLOAD_SIZE < cwnd`. -/
def cwndOpen : Bool :=
  decide (session.inFlight / estimatedPayloadSize <
    CongestionControl.cwnd session.congestionControl)

/-- Both windows have room for so many bytes. -/
def fits (len : Nat) : Bool :=
  session.cwndOpen && decide (session.inFlight + len ≤ session.peerRwnd)

/-- The first test of the readiness closure. -/
def retransmitPasses (idx : Nat) : Bool :=
  !msg.isAcked idx &&
    if idx = msg.highestCumulativeAck then session.cwndOpen || !anyDataSent
    else session.fits (msg.fragmentLen idx)

/-- An entry of the in-flight queue is as old as the timeout of its fragment. -/
def expired (entry : Nat × Instant) : Bool :=
  decide (session.rtt.rto * 2 ^ min 6 (msg.fragmentState entry.1).rtoBackoff ≤
    durationSince now entry.2)

/-- And the fragment is neither acknowledged nor was it sent again since. -/
def timedOut (entry : Nat × Instant) : Bool :=
  session.expired now msg entry && !msg.isAcked entry.1 &&
    (msg.fragmentState entry.1).lastSent.all (fun sent => sent ≤ entry.2)

/-- The second test of the readiness closure. -/
def timeoutPasses (entry : Nat × Instant) : Bool :=
  session.timedOut now msg entry && (session.fits (msg.fragmentLen entry.1) || !anyDataSent)

/-- The third test of the readiness closure. -/
def newPasses : Bool :=
  decide (msg.nextFragment < msg.numFragments) && !msg.isAcked msg.nextFragment &&
    (msg.fragmentState msg.nextFragment).lastSent.isNone &&
    (msg.fragmentState msg.nextFragment).deliveryInfo.isNone &&
    session.fits (msg.fragmentLen msg.nextFragment)

/-- The fragment whose length the readiness closure returns. -/
def pickedFragment : Option Nat :=
  match msg.retransmitQueue.head?.filter (session.retransmitPasses anyDataSent msg) with
  | some idx => some idx
  | none =>
      match msg.inFlightQueue.head?.filter (session.timeoutPasses now anyDataSent msg) with
      | some entry => some entry.1
      | none => if session.newPasses msg then some msg.nextFragment else none

end Tests

variable {session : SequenceSession C} {now : Instant} {anyDataSent : Bool}
variable {msg : OutgoingMessage} {id : MessageId}

/-- The readiness closure returns the length of the picked fragment. -/
theorem fragmentReady_eq (hget : session.outgoing.get id = some msg)
    (hpaced : session.nextPacingTime ≤ now) :
    FlushState.fragmentReady session now anyDataSent id =
      (session.pickedFragment now anyDataSent msg).map msg.fragmentLen := by
  unfold FlushState.fragmentReady pickedFragment
  simp only [hget, Option.bind_eq_bind, Option.bind_some, not_lt.mpr hpaced, if_false]
  have hnew : (msg.nextFragment < msg.numFragments ∧ !msg.isAcked msg.nextFragment ∧
      (msg.fragmentState msg.nextFragment).lastSent.isNone ∧
      (msg.fragmentState msg.nextFragment).deliveryInfo.isNone ∧
      session.fits (msg.fragmentLen msg.nextFragment)) ↔ session.newPasses msg = true := by
    simp only [newPasses, Bool.and_eq_true, decide_eq_true_eq, and_assoc]
  simp only [fits, cwndOpen] at hnew
  simp only [hnew]
  split
  next idx hretransmit =>
    change msg.retransmitQueue.head?.filter (session.retransmitPasses anyDataSent msg) = some idx
      at hretransmit
    rw [hretransmit]
    rfl
  next hretransmit =>
    have hretransmit : msg.retransmitQueue.head?.filter
        (session.retransmitPasses anyDataSent msg) = none :=
      Option.eq_none_iff_forall_ne_some.mpr hretransmit
    rw [hretransmit]
    dsimp only
    split
    next entry htimeout =>
      change msg.inFlightQueue.head?.filter (session.timeoutPasses now anyDataSent msg) = some entry
        at htimeout
      rw [htimeout]
      rfl
    next htimeout =>
      have htimeout : msg.inFlightQueue.head?.filter
          (session.timeoutPasses now anyDataSent msg) = none :=
        Option.eq_none_iff_forall_ne_some.mpr htimeout
      rw [htimeout]
      dsimp only
      split <;> rfl

/-- A selected message is outgoing and has a picked fragment. -/
theorem exists_of_fragmentReady
    (h : (FlushState.fragmentReady session now anyDataSent id).isSome = true) :
    ∃ msg, session.outgoing.get id = some msg ∧
      (session.pickedFragment now anyDataSent msg).isSome = true := by
  cases hget : session.outgoing.get id with
  | none => simp [FlushState.fragmentReady, hget] at h
  | some msg =>
      refine ⟨msg, rfl, ?_⟩
      by_cases hpaced : session.nextPacingTime ≤ now
      · rwa [fragmentReady_eq hget hpaced, Option.isSome_map] at h
      · simp [FlushState.fragmentReady, hget, not_le.mp hpaced] at h

/-! ## What the sender takes -/

/-- The fragment that the sender takes, and whether it charges a timeout for it. -/
inductive Takes (session : SequenceSession C) (now : Instant) (msg : OutgoingMessage) :
    Option Nat → Bool → Prop
  | retransmission {idx : Nat} {rest : List Nat} (hqueue : msg.retransmitQueue = idx :: rest) :
      Takes session now msg (some idx) false
  | timeout {entry : Nat × Instant} (hqueue : msg.retransmitQueue = [])
      (hfront : msg.inFlightQueue.head? = some entry)
      (hexpired : session.expired now msg entry = true) :
      Takes session now msg (some entry.1) true
  | fresh (hqueue : msg.retransmitQueue = [])
      (hfront : ∀ entry, msg.inFlightQueue.head? = some entry →
        session.expired now msg entry = false)
      (hnext : msg.nextFragment < msg.numFragments) :
      Takes session now msg (some msg.nextFragment) false
  | nothing (hqueue : msg.retransmitQueue = [])
      (hfront : ∀ entry, msg.inFlightQueue.head? = some entry →
        session.expired now msg entry = false)
      (hnext : msg.numFragments ≤ msg.nextFragment) :
      Takes session now msg none false

theorem rtoBackoff_markFragmentSent (msg : OutgoingMessage) (idx : Nat) (now : Instant)
    (delivered : Nat) (lastDelivery : Instant) (appLimited : Bool) (size other : Nat) :
    ((msg.markFragmentSent idx now delivered lastDelivery appLimited size).2.fragmentState
      other).rtoBackoff = (msg.fragmentState other).rtoBackoff := by
  by_cases hlt : idx < msg.fragmentStates.length
  · rw [OutgoingMessage.fragmentState_of_set rfl hlt]
    split
    next heq =>
      subst heq
      dsimp only
      split <;> rfl
    next => rfl
  · unfold OutgoingMessage.markFragmentSent OutgoingMessage.fragmentState
    dsimp only
    rw [List.set_eq_of_length_le (Nat.not_lt.mp hlt)]

theorem rtoBackoff_popInFlight {msg : OutgoingMessage} {other : Nat} (hne : other ≠ idx) :
    ((FlushState.popInFlight idx msg).fragmentState other).rtoBackoff =
      (msg.fragmentState other).rtoBackoff := by
  unfold FlushState.popInFlight OutgoingMessage.fragmentState
  dsimp only
  rw [List.getElem?_set_ne hne.symm]

/-- The data packet of a fragment. -/
def dataPacket (id : MessageId) (msg : OutgoingMessage) (idx : Nat) : Packet :=
  .data id idx msg.numFragments (msg.getFragment idx)

variable (now) in
theorem trySendFragment_accepting (hget : session.outgoing.get id = some msg) (idx : Nat) :
    FlushState.trySendFragment ⟨session, [], []⟩ id idx now =
      (true, ⟨FlushState.fragmentSent session id msg idx now, [], [dataPacket id msg idx]⟩) := by
  unfold FlushState.trySendFragment
  simp only [hget]
  rfl

theorem rtoBackoff_fragmentSent (session : SequenceSession C) (msg : OutgoingMessage)
    (id : MessageId)
    (idx : Nat) (now : Instant) :
    ∃ marked, (FlushState.fragmentSent session id msg idx now).outgoing.get id = some marked ∧
      ∀ other, (marked.fragmentState other).rtoBackoff = (msg.fragmentState other).rtoBackoff :=
  ⟨_, AssocMap.get_insert_self _ _ _, fun other =>
    rtoBackoff_markFragmentSent msg idx now _ _ _ _ other⟩

omit [CongestionControl C] in
theorem expired_eq (entry : Nat × Instant) :
    session.expired now msg entry =
      decide (session.rtt.rtoWithBackoff (msg.fragmentState entry.1).rtoBackoff ≤
        durationSince now entry.2) := by
  rw [expired, RttEstimator.rtoWithBackoff, Nat.min_comm]

variable (now) in
/-- With a transport that accepts, exactly what the sender takes is sent, and only a charged
fragment has its back-off changed. -/
theorem sendNextFragmentForMessage_takes (hget : session.outgoing.get id = some msg) :
    ∃ taken charged, session.Takes now msg taken charged ∧
      (FlushState.sendNextFragmentForMessage ⟨session, [], []⟩ id now).2.accepted =
        taken.toList.map (dataPacket id msg) ∧
      ∀ after, (FlushState.sendNextFragmentForMessage ⟨session, [], []⟩ id
          now).2.session.outgoing.get id = some after →
        ∀ idx, (after.fragmentState idx).rtoBackoff ≠ (msg.fragmentState idx).rtoBackoff →
          charged = true ∧ taken = some idx := by
  have hsent := trySendFragment_accepting now hget
  unfold FlushState.sendNextFragmentForMessage
  simp only [hget, ← expired_eq, hsent]
  -- The order of the source: a queued retransmission, then a timeout at the front, then a fresh
  -- fragment.
  cases hqueue : msg.retransmitQueue with
  | cons idx rest =>
      obtain ⟨marked, hmarked, hbackoff⟩ := rtoBackoff_fragmentSent session msg id idx now
      refine ⟨some idx, false, .retransmission hqueue, ?_, ?_⟩
      · rfl
      · intro after hafter other hne
        simp only [FlushState.updateOutgoing, FlushState.session_update,
          AssocMap.get_modify_self, hmarked, Option.map_some, Option.some.injEq] at hafter
        subst hafter
        refine absurd ?_ hne
        rw [OutgoingMessage.fragmentState, OutgoingMessage.fragmentStates_popRetransmit]
        exact hbackoff other
  | nil =>
      cases hfront : msg.inFlightQueue.head?.filter (session.expired now msg) with
      | some entry =>
          obtain ⟨hhead, hexpired⟩ := Option.filter_eq_some_iff.mp hfront
          obtain ⟨marked, hmarked, hbackoff⟩ := rtoBackoff_fragmentSent session msg id entry.1 now
          refine ⟨some entry.1, true, .timeout hqueue hhead hexpired, ?_, ?_⟩
          · rfl
          · intro after hafter other hne
            simp only [FlushState.updateOutgoing, FlushState.session_update,
              AssocMap.get_modify_self, hmarked, Option.map_some, Option.some.injEq] at hafter
            subst hafter
            by_cases heq : other = entry.1
            -- Only the timeout backs off.
            · exact ⟨rfl, congrArg some heq.symm⟩
            · rw [rtoBackoff_popInFlight heq, hbackoff] at hne
              exact absurd rfl hne
      | none =>
          have hyoung : ∀ entry, msg.inFlightQueue.head? = some entry →
              session.expired now msg entry = false := by
            intro entry hhead
            rw [hhead] at hfront
            simpa using hfront
          dsimp only
          split
          next hnext =>
            obtain ⟨marked, hmarked, hbackoff⟩ :=
              rtoBackoff_fragmentSent session msg id msg.nextFragment now
            refine ⟨some msg.nextFragment, false, .fresh hqueue hyoung hnext, ?_, ?_⟩
            · rfl
            · intro after hafter other hne
              simp only [FlushState.updateOutgoing, FlushState.session_update,
                AssocMap.get_modify_self, hmarked, Option.map_some, Option.some.injEq] at hafter
              subst hafter
              exact absurd (hbackoff other) hne
          next hnext =>
            refine ⟨none, false, .nothing hqueue hyoung (Nat.not_lt.mp hnext), rfl, ?_⟩
            intro after hafter other hne
            rw [hget, Option.some.injEq] at hafter
            subst hafter
            exact absurd rfl hne

end SequenceSession

/-! ## Selections -/

/-- A message that the scheduler has picked in the main loop of a flush, with the session as
it stands then, whether the loop has sent data before and whether the transport then accepts. -/
structure Selection (C : Type) where
  session : SequenceSession C
  anyDataSent : Bool
  id : MessageId
  accepts : Bool

namespace Selection

variable (selection : Selection C) (now : Instant) (msg : OutgoingMessage)

/-- The session and the packets sent when the transport accepts. -/
def sendNext : FlushState C :=
  (FlushState.sendNextFragmentForMessage ⟨selection.session, [], []⟩ selection.id now).2

/-- A fragment that both windows have room for, or one that may be sent without: the oldest
hole or a timed-out fragment at the start of a burst, or the oldest hole while the congestion
window is open. -/
def WithinWindows (idx : Nat) : Prop :=
  selection.session.fits (msg.fragmentLen idx) = true ∨
    (msg.retransmitQueue.head? = some idx ∧ idx = msg.highestCumulativeAck ∧
      (selection.session.cwndOpen = true ∨ selection.anyDataSent = false)) ∨
    (∃ sentAt, msg.inFlightQueue.head? = some (idx, sentAt) ∧
      selection.session.timedOut now msg (idx, sentAt) = true ∧ selection.anyDataSent = false)

/-- The fragment that is sent is the one whose length the readiness closure has returned; it
is within the windows, and a timeout is charged only for a timed-out fragment. -/
structure Agrees : Prop where
  sent : ∃ idx,
    selection.session.pickedFragment now selection.anyDataSent msg = some idx ∧
      (selection.sendNext now).accepted = [SequenceSession.dataPacket selection.id msg idx]
  windows : ∀ idx,
    (selection.sendNext now).accepted = [SequenceSession.dataPacket selection.id msg idx] →
      selection.WithinWindows now msg idx
  charged : ∀ after, (selection.sendNext now).session.outgoing.get selection.id = some after →
    ∀ idx, (after.fragmentState idx).rtoBackoff ≠ (msg.fragmentState idx).rtoBackoff →
      ∃ sentAt, msg.inFlightQueue.head? = some (idx, sentAt) ∧
        selection.session.timedOut now msg (idx, sentAt) = true

/-- The head of the retransmit queue passes the first test, or heads the in-flight queue, too,
as a timed-out fragment at the start of a burst. Without retransmissions, the head of the
in-flight queue passes the second test as soon as it is as old as its timeout. -/
structure Unobstructed : Prop where
  retransmission : ∀ idx, msg.retransmitQueue.head? = some idx →
    selection.session.retransmitPasses selection.anyDataSent msg idx = true ∨
      ∃ sentAt, msg.inFlightQueue.head? = some (idx, sentAt) ∧
        selection.session.timedOut now msg (idx, sentAt) = true ∧ selection.anyDataSent = false
  timeout : msg.retransmitQueue = [] → ∀ entry, msg.inFlightQueue.head? = some entry →
    selection.session.expired now msg entry = true →
      selection.session.timeoutPasses now selection.anyDataSent msg entry = true

end Selection

namespace SequenceSession

variable {session : SequenceSession C} {now : Instant} {anyDataSent : Bool}
variable {msg : OutgoingMessage} {id : MessageId}

theorem dataPacket_injective {first second : Nat}
    (h : dataPacket id msg first = dataPacket id msg second) : first = second := by
  unfold dataPacket at h
  injection h

/-- A new fragment that passes its test fits into both windows and was not sent before. -/
theorem newPasses_spec (h : session.newPasses msg = true) :
    msg.nextFragment < msg.numFragments ∧ msg.isAcked msg.nextFragment = false ∧
      (msg.fragmentState msg.nextFragment).lastSent = none ∧
      session.fits (msg.fragmentLen msg.nextFragment) = true := by
  simp only [newPasses, Bool.and_eq_true, decide_eq_true_eq, Bool.not_eq_true',
    Option.isNone_iff_eq_none] at h
  obtain ⟨⟨⟨⟨hnext, hunacked⟩, hunsent⟩, -⟩, hfits⟩ := h
  exact ⟨hnext, hunacked, hunsent, hfits⟩

/-- The picked fragment, by the test that it passes. -/
theorem pickedFragment_cases (h : session.pickedFragment now anyDataSent msg = some idx) :
    (msg.retransmitQueue.head? = some idx ∧
        session.retransmitPasses anyDataSent msg idx = true) ∨
      (∃ sentAt, msg.inFlightQueue.head? = some (idx, sentAt) ∧
        session.timeoutPasses now anyDataSent msg (idx, sentAt) = true) ∨
      (session.newPasses msg = true ∧ idx = msg.nextFragment) := by
  unfold pickedFragment at h
  split at h
  next hretransmit =>
    cases h
    exact .inl (Option.filter_eq_some_iff.mp hretransmit)
  next =>
    split at h
    next entry htimeout =>
      cases h
      exact .inr (.inl ⟨entry.2, Option.filter_eq_some_iff.mp htimeout⟩)
    next =>
      split at h
      next hnew =>
        cases h
        exact .inr (.inr ⟨hnew, rfl⟩)
      next => cases h

theorem retransmitPasses_of_fits (hunacked : msg.isAcked idx = false)
    (hfits : session.fits (msg.fragmentLen idx) = true) :
    session.retransmitPasses anyDataSent msg idx = true := by
  unfold retransmitPasses
  rw [hunacked, Bool.not_false, Bool.true_and]
  split
  next =>
    rw [fits, Bool.and_eq_true] at hfits
    rw [hfits.1, Bool.true_or]
  next => exact hfits

/-- A timed-out fragment that passes its test fits, or starts a burst. -/
theorem timeoutPasses_spec {entry : Nat × Instant}
    (h : session.timeoutPasses now anyDataSent msg entry = true) :
    session.expired now msg entry = true ∧ msg.isAcked entry.1 = false ∧
      session.timedOut now msg entry = true ∧
      (session.fits (msg.fragmentLen entry.1) = true ∨ anyDataSent = false) := by
  rw [timeoutPasses, Bool.and_eq_true, Bool.or_eq_true, Bool.not_eq_true'] at h
  have htimedOut := h.1
  simp only [timedOut, Bool.and_eq_true, Bool.not_eq_true'] at htimedOut
  exact ⟨htimedOut.1.1, htimedOut.1.2, h⟩

end SequenceSession

namespace Selection

open SequenceSession

variable {selection : Selection C} {now : Instant} {msg : OutgoingMessage}

/-- What the sender takes is what is sent. -/
theorem taken_of_accepted {taken : Option Nat}
    (haccepted : (selection.sendNext now).accepted = taken.toList.map (dataPacket selection.id msg))
    (hsent : (selection.sendNext now).accepted = [dataPacket selection.id msg idx]) :
    taken = some idx := by
  rw [hsent] at haccepted
  cases taken with
  | none => cases haccepted
  | some other =>
      have heq := List.head_eq_of_cons_eq haccepted
      rw [dataPacket_injective heq]

theorem Agrees.unobstructed (hget : selection.session.outgoing.get selection.id = some msg)
    (h : selection.Agrees now msg) : selection.Unobstructed now msg := by
  obtain ⟨taken, charged, htakes, haccepted, -⟩ := sendNextFragmentForMessage_takes now hget
  obtain ⟨idx, hpicked, hsent⟩ := h.sent
  have htaken := taken_of_accepted haccepted hsent
  subst htaken
  have hcases := pickedFragment_cases hpicked
  constructor
  · intro head hhead
    -- the sender takes the head, so the picked fragment is the head
    have hidx : idx = head := by
      cases htakes with
      | retransmission hqueue =>
          rw [hqueue] at hhead
          exact Option.some.inj hhead
      | timeout hqueue | fresh hqueue =>
          rw [hqueue] at hhead
          cases hhead
    subst hidx
    rcases hcases with ⟨-, hpasses⟩ | ⟨sentAt, hfront, hpasses⟩ | ⟨hnew, hnext⟩
    · exact .inl hpasses
    · obtain ⟨-, hunacked, htimedOut, hfits | hfirst⟩ := timeoutPasses_spec hpasses
      · exact .inl (retransmitPasses_of_fits hunacked hfits)
      · exact .inr ⟨sentAt, hfront, htimedOut, hfirst⟩
    · obtain ⟨-, hunacked, -, hfits⟩ := newPasses_spec hnew
      rw [← hnext] at hunacked hfits
      exact .inl (retransmitPasses_of_fits hunacked hfits)
  · intro hqueue entry hfront hexpired
    have hidx : idx = entry.1 := by
      cases htakes with
      | retransmission hcons =>
          rw [hqueue] at hcons
          cases hcons
      | timeout _ hhead _ =>
          rw [hhead, Option.some.injEq] at hfront
          rw [hfront]
      | fresh _ hyoung _ =>
          rw [hyoung entry hfront] at hexpired
          cases hexpired
    rcases hcases with ⟨hhead, -⟩ | ⟨sentAt, hfront', hpasses⟩ | ⟨hnew, hnext⟩
    · rw [hqueue] at hhead
      cases hhead
    · rw [hfront, Option.some.injEq] at hfront'
      rw [hfront']
      exact hpasses
    · obtain ⟨-, hunacked, hunsent, hfits⟩ := newPasses_spec hnew
      rw [← hnext, hidx] at hunacked hunsent hfits
      simp [timeoutPasses, timedOut, hexpired, hunacked, hunsent, hfits]

/-- Nothing in the way of the picked fragment. -/
theorem Unobstructed.agrees (hget : selection.session.outgoing.get selection.id = some msg)
    (hsome : (selection.session.pickedFragment now selection.anyDataSent msg).isSome = true)
    (h : selection.Unobstructed now msg) : selection.Agrees now msg := by
  obtain ⟨taken, charged, htakes, haccepted, hbackoff⟩ :=
    sendNextFragmentForMessage_takes now hget
  obtain ⟨picked, hpicked⟩ := Option.isSome_iff_exists.mp hsome
  -- it is enough that the sender takes the picked fragment, for a reason
  have hagrees : ∀ idx, taken = some idx →
      selection.session.pickedFragment now selection.anyDataSent msg = some idx →
      selection.WithinWindows now msg idx →
      (charged = true → ∃ sentAt, msg.inFlightQueue.head? = some (idx, sentAt) ∧
        selection.session.timedOut now msg (idx, sentAt) = true) → selection.Agrees now msg := by
    rintro idx rfl hpick hwindows hcharged
    refine ⟨⟨idx, hpick, haccepted⟩, ?_, ?_⟩
    · intro other hother
      cases taken_of_accepted haccepted hother
      exact hwindows
    · intro after hafter other hne
      obtain ⟨hpaid, heq⟩ := hbackoff after hafter other hne
      cases heq
      exact hcharged hpaid
  -- without a retransmission and a timeout only a new fragment is picked
  have hidle : msg.retransmitQueue = [] → (∀ entry, msg.inFlightQueue.head? = some entry →
      selection.session.expired now msg entry = false) →
      selection.session.newPasses msg = true ∧ picked = msg.nextFragment := by
    intro hqueue hyoung
    rcases pickedFragment_cases hpicked with ⟨hhead, -⟩ | ⟨sentAt, hfront, hpasses⟩ | hnew
    · rw [hqueue] at hhead
      cases hhead
    · have hexpired := (timeoutPasses_spec hpasses).1
      rw [hyoung _ hfront] at hexpired
      cases hexpired
    · exact hnew
  cases htakes with
  | @retransmission idx rest hqueue =>
      have hhead : msg.retransmitQueue.head? = some idx := by rw [hqueue, List.head?_cons]
      by_cases hpasses : selection.session.retransmitPasses selection.anyDataSent msg idx = true
      · refine hagrees idx rfl ?_ ?_ nofun
        · rw [pickedFragment, hhead, Option.filter_some, if_pos hpasses]
        · rw [retransmitPasses, Bool.and_eq_true] at hpasses
          obtain ⟨-, hallowed⟩ := hpasses
          split at hallowed
          next hhole =>
            rw [Bool.or_eq_true, Bool.not_eq_true'] at hallowed
            exact .inr (.inl ⟨hhead, hhole, hallowed⟩)
          next => exact .inl hallowed
      · obtain ⟨sentAt, hfront, htimedOut, hfirst⟩ :=
          (h.retransmission idx hhead).resolve_left hpasses
        have hdue : selection.session.timeoutPasses now selection.anyDataSent msg (idx, sentAt) =
            true := by
          rw [timeoutPasses, htimedOut, hfirst, Bool.not_false, Bool.or_true, Bool.and_true]
        refine hagrees idx rfl ?_ (.inr (.inr ⟨sentAt, hfront, htimedOut, hfirst⟩)) nofun
        rw [pickedFragment, hhead, Option.filter_some, if_neg hpasses, hfront, Option.filter_some,
          if_pos hdue]
  | @timeout entry hqueue hfront hexpired =>
      have hdue := h.timeout hqueue entry hfront hexpired
      obtain ⟨-, -, htimedOut, hallowed⟩ := timeoutPasses_spec hdue
      refine hagrees entry.1 rfl ?_ ?_ fun _ => ⟨entry.2, hfront, htimedOut⟩
      · rw [pickedFragment, hqueue, List.head?_nil, Option.filter_none, hfront, Option.filter_some,
          if_pos hdue]
      · rcases hallowed with hfits | hfirst
        · exact .inl hfits
        · exact .inr (.inr ⟨entry.2, hfront, htimedOut, hfirst⟩)
  | fresh hqueue hyoung hnext =>
      obtain ⟨hnew, rfl⟩ := hidle hqueue hyoung
      exact hagrees _ rfl hpicked (.inl (newPasses_spec hnew).2.2.2) nofun
  | nothing hqueue hyoung hnext =>
      obtain ⟨hnew, -⟩ := hidle hqueue hyoung
      exact absurd (newPasses_spec hnew).1 (Nat.not_lt.mpr hnext)

end Selection

/-! ## The main loop -/

namespace FlushState

open SequenceSession

/-- The selections of the main loop, in order. -/
def selections (now : Instant) : Nat → Bool → FlushState C → List (Selection C)
  | 0, _, _ => []
  | rounds + 1, anyDataSent, state =>
      let (next, scheduler) :=
        state.session.scheduler.nextMessage (fragmentReady state.session now anyDataSent)
      let state := state.update fun session => { session with scheduler := scheduler }
      match next with
      | none => []
      | some id =>
          let (accepts, sent) := state.sendNextFragmentForMessage id now
          ⟨state.session, anyDataSent, id, accepts⟩ ::
            if accepts then selections now rounds true sent else []

variable {now : Instant} {state : FlushState C}
variable (now) in
/-- The transport decides about the packet alone. -/
theorem trySendFragment_answer {id : MessageId} {msg : OutgoingMessage}
    (hget : state.session.outgoing.get id = some msg) (idx : Nat) :
    ∃ answers, state.trySendFragment id idx now =
        (true, ⟨fragmentSent state.session id msg idx now, answers,
          state.accepted ++ [dataPacket id msg idx]⟩) ∨
      state.trySendFragment id idx now = (false, ⟨state.session, answers, state.accepted⟩) := by
  unfold trySendFragment offer
  simp only [hget]
  cases hanswers : state.answers with
  | nil => exact ⟨_, .inl rfl⟩
  | cons answer rest =>
      cases answer with
      | true => exact ⟨rest, .inl rfl⟩
      | false => exact ⟨rest, .inr rfl⟩

variable (now) in
theorem accepted_sendNextFragmentForMessage (state : FlushState C) (id : MessageId) :
    (state.sendNextFragmentForMessage id now).2.accepted = state.accepted ++
      if (state.sendNextFragmentForMessage id now).1 then
        (sendNextFragmentForMessage ⟨state.session, [], []⟩ id now).2.accepted
      else [] := by
  cases hget : state.session.outgoing.get id with
  | none => simp [sendNextFragmentForMessage, hget]
  | some msg =>
      have haccepting := trySendFragment_accepting now hget
      unfold sendNextFragmentForMessage
      simp only [hget, haccepting]
      cases msg.retransmitQueue with
      | cons idx rest =>
          obtain ⟨answers, h | h⟩ := trySendFragment_answer now hget idx
          all_goals simp [h, updateOutgoing, update]
      | nil =>
          cases msg.inFlightQueue.head?.filter fun entry => decide
              (state.session.rtt.rtoWithBackoff (msg.fragmentState entry.1).rtoBackoff ≤
                durationSince now entry.2) with
          | some entry =>
              obtain ⟨answers, h | h⟩ := trySendFragment_answer now hget entry.1
              all_goals simp [h, updateOutgoing, update]
          | none =>
              obtain ⟨answers, h | h⟩ := trySendFragment_answer now hget msg.nextFragment
              all_goals
                dsimp only
                split <;> simp [h, updateOutgoing, update]

/-- What the main loop sends is what its selections send. -/
theorem accepted_flushData (rounds : Nat) (anyDataSent : Bool) (state : FlushState C) :
    (flushData now rounds anyDataSent state).2.accepted = state.accepted ++
      (selections now rounds anyDataSent state).flatMap fun selection =>
        if selection.accepts then (selection.sendNext now).accepted else [] := by
  induction rounds generalizing anyDataSent state with
  | zero => simp [flushData, selections]
  | succ rounds ih =>
      unfold flushData selections
      generalize state.session.scheduler.nextMessage
        (fragmentReady state.session now anyDataSent) = outcome
      obtain ⟨next, scheduler⟩ := outcome
      dsimp only
      cases next with
      | none => simp [update]
      | some id =>
          generalize hselected : (state.update fun session =>
            { session with scheduler := scheduler }) = selected
          have hbefore : selected.accepted = state.accepted := by rw [← hselected]; rfl
          have hsent := accepted_sendNextFragmentForMessage now selected id
          rw [hbefore] at hsent
          dsimp only
          cases hanswer : selected.sendNextFragmentForMessage id now with
          | mk accepts sent =>
              rw [hanswer] at hsent
              cases accepts with
              | true =>
                  dsimp only at hsent ⊢
                  rw [ih, hsent]
                  simp [Selection.sendNext]
              | false =>
                  dsimp only at hsent ⊢
                  rw [hsent]
                  simp

/-- Each selected message is outgoing and has a picked fragment. -/
theorem exists_of_mem_selections {anyDataSent : Bool} {selection : Selection C}
    (h : selection ∈ selections now rounds anyDataSent state) :
    ∃ msg, selection.session.outgoing.get selection.id = some msg ∧
      (selection.session.pickedFragment now selection.anyDataSent msg).isSome = true := by
  induction rounds generalizing anyDataSent state with
  | zero => cases h
  | succ rounds ih =>
      unfold selections at h
      cases houtcome : state.session.scheduler.nextMessage
        (fragmentReady state.session now anyDataSent) with
      | mk next scheduler =>
          simp only [houtcome] at h
          cases next with
          | none => cases h
          | some id =>
              rcases List.mem_cons.mp h with rfl | hrest
              · -- the scheduler's own state does not matter to the tests
                exact exists_of_fragmentReady
                  (PriorityScheduler.nextMessage_ready (congrArg Prod.fst houtcome))
              · split at hrest
                next => exact ih hrest
                next => cases hrest

end FlushState

namespace SequenceSession

/-- A flush before its main loop. -/
def mainLoopStart (session : SequenceSession C) (now : Instant) (nowMs : Int)
    (answers : List Bool) : FlushState C :=
  let state := (⟨session, answers, []⟩ : FlushState C).flushPing now nowMs
  let state := FlushState.flushDatagrams now state.session.datagramQueue.length state
  state.flushProbe now

/-- The selections of a flush; the number bounds the rounds of the main loop. -/
def selections (session : SequenceSession C) (now : Instant) (nowMs : Int) (answers : List Bool)
    (rounds : Nat) : List (Selection C) :=
  FlushState.selections now rounds false (session.mainLoopStart now nowMs answers)

/-- The packet carries the picked fragment of a selection, within the windows. -/
def IsPicked (selections : List (Selection C)) (now : Instant) (packet : Packet) : Prop :=
  ∃ selection ∈ selections, ∃ msg idx, selection.session.outgoing.get selection.id = some msg ∧
    selection.session.pickedFragment now selection.anyDataSent msg = some idx ∧
    packet = dataPacket selection.id msg idx ∧ selection.WithinWindows now msg idx

/-- Where every selection of a flush agrees, its main loop sends picked fragments. -/
theorem isPicked_of_agrees {session : SequenceSession C} {now : Instant} {nowMs : Int}
    {answers : List Bool}
    (hagrees : ∀ selection ∈ session.selections now nowMs answers rounds, ∃ msg,
      selection.session.outgoing.get selection.id = some msg ∧ selection.Agrees now msg) :
    ∃ sent, (FlushState.flushData now rounds false
        (session.mainLoopStart now nowMs answers)).2.accepted =
          (session.mainLoopStart now nowMs answers).accepted ++ sent ∧
      ∀ packet ∈ sent, IsPicked (session.selections now nowMs answers rounds) now packet := by
  refine ⟨_, FlushState.accepted_flushData rounds false _, ?_⟩
  intro packet hpacket
  obtain ⟨selection, hmem, hsent⟩ := List.mem_flatMap.mp hpacket
  obtain ⟨msg, hget, h⟩ := hagrees selection hmem
  obtain ⟨idx, hpicked, haccepted⟩ := h.sent
  split at hsent
  next =>
    rw [haccepted, List.mem_singleton] at hsent
    exact ⟨selection, hmem, msg, idx, hget, hpicked, hsent, h.windows idx haccepted⟩
  next => cases hsent

/-- In every reachable state, the fragment sent for a selected message is the one whose length
the readiness closure has returned if and only if nothing that the closure has passed over is
in its way. Where nothing is in the way of any selection, the main loop sends picked fragments
only. -/
theorem sender_agrees_iff [FloatOps] (config : SessionConfig C) (operations : List Operation)
    (now : Instant) (nowMs : Int) (answers : List Bool) (rounds : Nat) :
    let session := runFrom SequenceSession.step (.new config) operations
    (∀ selection ∈ session.selections now nowMs answers rounds,
      ∃ msg, selection.session.outgoing.get selection.id = some msg ∧
        (selection.Agrees now msg ↔ selection.Unobstructed now msg)) ∧
    ((∀ selection ∈ session.selections now nowMs answers rounds, ∀ msg,
        selection.session.outgoing.get selection.id = some msg → selection.Unobstructed now msg) →
      ∃ sent, (FlushState.flushData now rounds false
          (session.mainLoopStart now nowMs answers)).2.accepted =
            (session.mainLoopStart now nowMs answers).accepted ++ sent ∧
        ∀ packet ∈ sent, IsPicked (session.selections now nowMs answers rounds) now packet) := by
  intro session
  have hiff : ∀ selection ∈ session.selections now nowMs answers rounds,
      ∃ msg, selection.session.outgoing.get selection.id = some msg ∧
        (selection.Agrees now msg ↔ selection.Unobstructed now msg) := by
    intro selection hmem
    obtain ⟨msg, hget, hsome⟩ := FlushState.exists_of_mem_selections hmem
    exact ⟨msg, hget, fun h => h.unobstructed hget, fun h => h.agrees hget hsome⟩
  refine ⟨hiff, fun hclear => isPicked_of_agrees fun selection hmem => ?_⟩
  obtain ⟨msg, hget, hagrees⟩ := hiff selection hmem
  exact ⟨msg, hget, hagrees.mpr (hclear selection hmem msg hget)⟩

end SequenceSession

/-! ### Two runs -/

abbrev referenceSelections (operations : List Operation) (now : Nat) :
    List (Selection FixedWindow) :=
  (referenceSession operations).selections (now : Nat) 0 [] 10

/-- A message of three fragments; a flush sends the first. -/
def firstFlush : List Operation :=
  [.call (.sendMessage .merkleNode (List.replicate 3000 0) 0), .call (.flush 0 0 [])]

/-- The next flush selects the message with nothing to be sent again. -/
theorem sender_agrees_second_flush :
    ∃ selection ∈ referenceSelections firstFlush 0, ∃ msg,
      selection.session.outgoing.get selection.id = some msg ∧ selection.Agrees 0 msg := by
  have hselected : (referenceSelections firstFlush 0).head?.isSome = true := by decide +kernel
  have hclear : (referenceSelections firstFlush 0).head?.all (fun selection =>
      (selection.session.outgoing.get selection.id).all fun msg => msg.retransmitQueue.isEmpty &&
        msg.inFlightQueue.head?.all fun entry => !selection.session.expired 0 msg entry) =
          true := by
    decide +kernel
  obtain ⟨selection, hhead⟩ := Option.isSome_iff_exists.mp hselected
  have hmem := List.mem_of_mem_head? hhead
  obtain ⟨msg, hget, hiff⟩ := (@SequenceSession.sender_agrees_iff FixedWindow _ exactFloatOps
    (referenceConfig .left) firstFlush 0 0 [] 10).1 selection hmem
  rw [hhead, Option.all_some, hget, Option.all_some, Bool.and_eq_true, List.isEmpty_iff] at hclear
  obtain ⟨hqueue, hfront⟩ := hclear
  refine ⟨selection, hmem, msg, hget, hiff.mpr ⟨?_, ?_⟩⟩
  · intro idx hidx
    rw [hqueue] at hidx
    cases hidx
  · intro _ entry hentry hexpired
    rw [hentry, Option.all_some, hexpired] at hfront
    cases hfront

/-- Three flushes send the three fragments. The peer then asks for the second one and leaves
room for one fragment, and two seconds pass. -/
def blockedRetransmit : List Operation :=
  firstFlush ++ [.call (.flush 0 0 []), .call (.flush 0 0 []), .receive (.nack ⟨5, [1]⟩) 1000 0 0,
    .receive (.ack ⟨5, 0, 0, 1⟩) 1000 0 0]

/-- The closure returns the length of the timed-out first fragment, and the second one is
sent, into a window that is full. -/
theorem sender_disagrees :
    ∃ selection ∈ referenceSelections blockedRetransmit (fromSecs 2), ∃ msg,
      selection.session.outgoing.get selection.id = some msg ∧
        ¬ selection.Agrees (fromSecs 2 : Nat) msg := by
  have hselected : (referenceSelections blockedRetransmit (fromSecs 2)).head?.any (fun selection =>
      (selection.session.outgoing.get selection.id).any fun msg =>
        decide (msg.retransmitQueue.head? = some 1) &&
          (msg.inFlightQueue.head?.all fun entry => entry.1 != 1) &&
            !selection.session.retransmitPasses selection.anyDataSent msg 1) = true := by
    decide +kernel
  obtain ⟨selection, hhead, hany⟩ := (Option.any_eq_true _ _).mp hselected
  obtain ⟨msg, hget, hfacts⟩ := (Option.any_eq_true _ _).mp hany
  simp only [Bool.and_eq_true, decide_eq_true_eq, Bool.not_eq_true'] at hfacts
  obtain ⟨⟨hqueue, hother⟩, hblocked⟩ := hfacts
  refine ⟨selection, List.mem_of_mem_head? hhead, msg, hget, fun hagrees => ?_⟩
  rcases (hagrees.unobstructed hget).retransmission 1 hqueue with hpasses | ⟨sentAt, hfront, -⟩
  · rw [hblocked] at hpasses
    cases hpasses
  · rw [hfront] at hother
    cases hother

end MerkleTox.Sequenced
