import MerkleTox.Sequenced.Session

/-! # Flushing packets to the transport

`flush_packets` offers packets to the transport one at a time and updates the
session only for those the transport takes. It is the only source of data
packets.
-/

namespace MerkleTox.Sequenced

open Proto

variable {C : Type}

/-- The session together with the transport: its coming answers, an exhausted
list standing for acceptance, and the packets it took so far. -/
structure FlushState (C : Type) where
  session : SequenceSession C
  answers : List Bool
  accepted : List Packet

namespace FlushState

variable (session : SequenceSession C) (state : FlushState C)

/-- `sender(packet)`. -/
def offer (packet : Packet) : Bool × FlushState C :=
  match state.answers with
  | [] => (true, { state with accepted := state.accepted ++ [packet] })
  | true :: answers =>
      (true, { state with answers := answers, accepted := state.accepted ++ [packet] })
  | false :: answers => (false, { state with answers := answers })

def update (f : SequenceSession C → SequenceSession C) : FlushState C :=
  { state with session := f state.session }

def flushPing (now : Instant) (nowMs : Int) : FlushState C :=
  let session := state.session
  if session.pingInterval ≤ durationSince now session.lastPing then
    match state.offer (.ping nowMs) with
    | (true, state) => state.update fun session =>
        { session with lastPing := now, lastPingSent := some now, lastActivity := now }
    | (false, state) => state
  else state

variable [CongestionControl C]

/-- The datagram loop; it ends at the latest when the queue is empty. -/
def flushDatagrams (now : Instant) : Nat → FlushState C → FlushState C
  | 0, state => state
  | rounds + 1, state =>
      match state.session.datagramQueue with
      | [] => state
      | (messageType, data) :: queue =>
          if now < state.session.nextPacingTime then state
          else
            let state := state.update fun session => { session with datagramQueue := queue }
            match state.offer (.datagram messageType data) with
            | (false, state) => state
            | (true, state) =>
                flushDatagrams now rounds <| state.update fun session =>
                  let gap := CongestionControl.pacingGap session.congestionControl
                    (data.length + 10)
                  { session with
                    lastActivity := now
                    nextPacingTime := max session.nextPacingTime now + (gap : Nat) }

/-- The updates of `try_send_fragment` after the transport took the packet. -/
def fragmentSent (id : MessageId) (msg : OutgoingMessage) (idx : Nat) (now : Instant) :
    SequenceSession C :=
  let fragmentLen := msg.fragmentLen idx
  let gap := CongestionControl.pacingGap session.congestionControl fragmentLen
  let cwnd := CongestionControl.cwnd session.congestionControl
  let appLimited :=
    if cwnd * estimatedPayloadSize ≤ session.inFlight + fragmentLen then false
    else session.appLimited
  let (wasInFlight, msg) := msg.markFragmentSent idx now session.deliveredBytes
    session.lastDeliveryTime appLimited fragmentLen
  { session with
    appLimited := appLimited
    outgoing := session.outgoing.insert id msg
    inFlight := (if wasInFlight then session.inFlight - fragmentLen else session.inFlight) +
      fragmentLen
    retransmitCount := if wasInFlight then session.retransmitCount + 1 else session.retransmitCount
    congestionControl :=
      CongestionControl.onFragmentSent session.congestionControl fragmentLen now
    lastActivity := now
    nextPacingTime := max session.nextPacingTime now + (gap : Nat) }

def trySendFragment (id : MessageId) (idx : Nat) (now : Instant) : Bool × FlushState C :=
  match state.session.outgoing.get id with
  | none => (false, state)
  | some msg =>
      match state.offer (.data id idx msg.numFragments (msg.getFragment idx)) with
      | (false, state) => (false, state)
      | (true, state) => (true, state.update fun session => fragmentSent session id msg idx now)

/-- `if let Some(msg) = self.outgoing.get_mut(&id) { .. }`. -/
def updateOutgoing (id : MessageId) (f : OutgoingMessage → OutgoingMessage) : FlushState C :=
  state.update fun session => { session with outgoing := session.outgoing.modify id f }

def advanceNext (msg : OutgoingMessage) : OutgoingMessage :=
  { msg with nextFragment := msg.nextFragment + 1 }

/-- The fragment a zero-window probe carries, and whether it is a new one. -/
def probeTarget (entry : MessageId × OutgoingMessage) : Option (MessageId × Nat × Bool) :=
  let (id, msg) := entry
  match msg.retransmitQueue with
  | idx :: _ => some (id, idx, false)
  | [] =>
      if msg.nextFragment < msg.numFragments then some (id, msg.nextFragment, true)
      else msg.inFlightQueue.head?.map fun entry => (id, entry.1, false)

def flushProbe (now : Instant) : FlushState C :=
  let session := state.session
  if session.peerRwnd < estimatedPayloadSize ∧ !session.outgoing.isEmpty ∧
      session.nextPacingTime ≤ now ∧
      session.rtt.rtoWithBackoff session.zeroWindowProbesSent ≤
        durationSince now session.lastRwndProbe then
    match session.outgoing.entries.findSome? probeTarget with
    | none => state
    | some (id, idx, isNew) =>
        match state.trySendFragment id idx now with
        | (false, state) => state
        | (true, state) =>
            let state := if isNew then state.updateOutgoing id advanceNext else state
            state.update fun session =>
              { session with
                lastRwndProbe := now
                zeroWindowProbesSent := session.zeroWindowProbesSent + 1 }
  else state

/-- The readiness test of the scheduler: the length of the next fragment of a
message, when the windows allow it. -/
def fragmentReady (now : Instant) (anyDataSent : Bool) (id : MessageId) : Option Nat := do
  let msg ← session.outgoing.get id
  if now < session.nextPacingTime then none
  let inFlight := session.inFlight
  let cwndOpen := decide (inFlight / estimatedPayloadSize <
    CongestionControl.cwnd session.congestionControl)
  let fits := fun len => cwndOpen && decide (inFlight + len ≤ session.peerRwnd)
  let retransmit := msg.retransmitQueue.head?.filter fun idx => !msg.isAcked idx &&
    if idx = msg.highestCumulativeAck then cwndOpen || !anyDataSent
    else fits (msg.fragmentLen idx)
  let timeout := msg.inFlightQueue.head?.filter fun entry =>
    let state := msg.fragmentState entry.1
    decide (session.rtt.rto * 2 ^ min 6 state.rtoBackoff ≤ durationSince now entry.2) &&
      !msg.isAcked entry.1 && state.lastSent.all (fun sent => sent ≤ entry.2) &&
      (fits (msg.fragmentLen entry.1) || !anyDataSent)
  let state := msg.fragmentState msg.nextFragment
  if let some idx := retransmit then some (msg.fragmentLen idx)
  else if let some entry := timeout then some (msg.fragmentLen entry.1)
  else if msg.nextFragment < msg.numFragments ∧ !msg.isAcked msg.nextFragment ∧
      state.lastSent.isNone ∧ state.deliveryInfo.isNone ∧ fits (msg.fragmentLen msg.nextFragment)
    then some (msg.fragmentLen msg.nextFragment)
  else none

def popRetransmit (msg : OutgoingMessage) : OutgoingMessage :=
  match msg.retransmitQueue with
  | [] => msg
  | idx :: queue => { msg with
      retransmitQueue := queue, retransmitBitset := (msg.retransmitBitset.unset idx).2 }

def popInFlight (idx : Nat) (msg : OutgoingMessage) : OutgoingMessage :=
  let state := msg.fragmentState idx
  { msg with
    fragmentStates := msg.fragmentStates.set idx { state with rtoBackoff := state.rtoBackoff + 1 }
    inFlightQueue := msg.inFlightQueue.tail }

/-- A retransmission first, then a timed-out fragment, then new data. -/
def sendNextFragmentForMessage (id : MessageId) (now : Instant) : Bool × FlushState C :=
  match state.session.outgoing.get id with
  | none => (false, state)
  | some msg =>
      let timedOut := msg.inFlightQueue.head?.filter fun entry => decide
        (state.session.rtt.rtoWithBackoff (msg.fragmentState entry.1).rtoBackoff ≤
          durationSince now entry.2)
      match msg.retransmitQueue, timedOut with
      | idx :: _, _ =>
          match state.trySendFragment id idx now with
          | (true, state) => (true, state.updateOutgoing id popRetransmit)
          | (false, state) => (false, state)
      | [], some (idx, _) =>
          match state.trySendFragment id idx now with
          | (true, state) =>
              (true, (state.updateOutgoing id (popInFlight idx)).update fun session =>
                { session with
                  congestionControl := CongestionControl.onTimeout session.congestionControl now })
          | (false, state) => (false, state)
      | [], none =>
          if msg.nextFragment < msg.numFragments then
            match state.trySendFragment id msg.nextFragment now with
            | (true, state) => (true, state.updateOutgoing id advanceNext)
            | (false, state) => (false, state)
          else (false, state)

/-- The main data loop; the Boolean is `any_data_sent`. -/
def flushData (now : Instant) : Nat → Bool → FlushState C → Bool × FlushState C
  | 0, anyDataSent, state => (anyDataSent, state)
  | rounds + 1, anyDataSent, state =>
      let (next, scheduler) :=
        state.session.scheduler.nextMessage (fragmentReady state.session now anyDataSent)
      let state := state.update fun session => { session with scheduler := scheduler }
      match next with
      | none => (anyDataSent, state)
      | some id =>
          match state.sendNextFragmentForMessage id now with
          | (true, state) => flushData now rounds true state
          | (false, state) => (anyDataSent, state)

/-- A bound on the rounds of the main loop. Each round pops a retransmission,
advances to a new fragment, or moves a timed-out fragment to the back of its
queue, stamped `now` and so not due again. -/
def dataRounds : Nat :=
  (session.outgoing.values.map fun msg => msg.retransmitQueue.length + msg.inFlightQueue.length +
    2 * (msg.numFragments - msg.nextFragment)).sum + 1

/-- The newest fragment in flight, when it is due for a tail loss probe. -/
def tailTarget (now : Instant) (threshold : Duration) (entry : MessageId × OutgoingMessage) :
    Option (MessageId × Nat) :=
  match entry.2.inFlightQueue.getLast? with
  | some (idx, lastSent) =>
      if threshold ≤ durationSince now lastSent then some (entry.1, idx) else none
  | none => none

def flushTailProbe [FloatOps] (state : FlushState C) (now : Instant) (anyDataSent : Bool) :
    FlushState C :=
  let session := state.session
  if !anyDataSent ∧ 0 < session.inFlight then
    let threshold := max (FloatOps.mulF32 session.rtt.srtt (3 / 2)) (fromMillis 10)
    match session.outgoing.entries.findSome? (tailTarget now threshold) with
    | some (id, idx) => (state.trySendFragment id idx now).2
    | none => state
  else state

/-- The acknowledgement owed for a message, from its reassembler or from the
record of its completion. -/
def owedAck (rwnd : Nat) (id : MessageId) : Option SelectiveAck :=
  match session.incoming.get id with
  | some reassembler => some (reassembler.createAck rwnd)
  | none => (session.completedIncoming.get id).map fun entry => { entry.1 with rwnd := rwnd }

def clearPending (id : MessageId) (session : SequenceSession C) : SequenceSession C :=
  { session with
    pendingAcks := session.pendingAcks.erase id, pendingNacks := session.pendingNacks.erase id }

def sendAcks (rwnd : Nat) : List MessageId → FlushState C → FlushState C
  | [], state => state
  | id :: ids, state =>
      match owedAck state.session rwnd id with
      | none => sendAcks rwnd ids (state.update (clearPending id))
      | some ack =>
          match state.offer (.ack ack) with
          | (true, state) => sendAcks rwnd ids (state.update (clearPending id))
          | (false, state) => state

def flushPendingAcks (now : Instant) : FlushState C :=
  let session := state.session
  let due := session.pendingAcks.entries.filter fun entry =>
    decide (2 ≤ entry.2.1) || decide (delayedAckTimeout ≤ durationSince now entry.2.2)
  sendAcks session.currentRwnd (due.map Prod.fst) state

def sendNacks : List MessageId → FlushState C → FlushState C
  | [], state => state
  | id :: ids, state =>
      let dropped := fun session : SequenceSession C =>
        { session with pendingNacks := session.pendingNacks.erase id }
      let nack := (state.session.incoming.get id).bind fun reassembler =>
        reassembler.createNack reassembler.buffer.baseIndex
      match nack with
      | none => sendNacks ids (state.update dropped)
      | some nack =>
          match state.offer (.nack nack) with
          | (true, state) => sendNacks ids (state.update dropped)
          | (false, state) => state

def flushPendingNacks (now : Instant) : FlushState C :=
  let session := state.session
  let due := session.pendingNacks.entries.filter fun entry =>
    decide (max (session.rtt.srtt / 4) (fromMillis 10) ≤ durationSince now entry.2)
  sendNacks (due.map Prod.fst) state

def detectAppLimited (session : SequenceSession C) : SequenceSession C :=
  let cwnd := CongestionControl.cwnd session.congestionControl
  let hasMoreData := session.outgoing.values.any fun msg =>
    !msg.retransmitQueue.isEmpty || decide (msg.nextFragment < msg.numFragments)
  if session.inFlight < cwnd * estimatedPayloadSize ∧ !hasMoreData then
    { session with appLimited := true }
  else session

/-- The body of `flush_packets`. -/
def flushAll [FloatOps] (state : FlushState C) (now : Instant) (nowMs : Int) : FlushState C :=
  let state := state.flushPing now nowMs
  let state := flushDatagrams now state.session.datagramQueue.length state
  let state := state.flushProbe now
  let (anyDataSent, state) := flushData now (dataRounds state.session) false state
  let state := state.flushTailProbe now anyDataSent
  let state := (state.flushPendingAcks now).flushPendingNacks now
  state.update detectAppLimited

end FlushState

namespace SequenceSession

variable [FloatOps] [CongestionControl C]

/-- `flush_packets`: the session afterwards and the packets the transport took. -/
def flushPackets (session : SequenceSession C) (now : Instant) (nowMs : Int)
    (answers : List Bool) : SequenceSession C × List Packet :=
  let state := (⟨session, answers, []⟩ : FlushState C).flushAll now nowMs
  (state.session, state.accepted)

end SequenceSession

namespace SequenceSession

/-- The part of a session that flushing does not touch. -/
def receiveView (session : SequenceSession C) :=
  (session.nextMessageId, session.incoming, session.completedIncoming, session.events,
    session.highestReceivedId, session.quota, session.maxPerSession, session.incomingBufferSize)

/-- The messages of two sessions agree in content and acknowledgements. -/
def SameOutgoing (first second : SequenceSession C) : Prop :=
  ∀ id, (first.outgoing.get id).map OutgoingMessage.ackView =
    (second.outgoing.get id).map OutgoingMessage.ackView

theorem SameOutgoing.of_eq {first second : SequenceSession C}
    (h : first.outgoing = second.outgoing) : first.SameOutgoing second := by
  intro id
  rw [h]

/-- The packets that a session may send when it is flushed: fragments of its own
messages, and acknowledgements of what it holds or has completed. -/
def Entitled (session : SequenceSession C) : Packet → Prop
  | .data id idx total data => ∃ msg, session.outgoing.get id = some msg ∧
      total = msg.numFragments ∧ data = msg.getFragment idx
  | .ack ack => ∃ rwnd id, FlushState.owedAck session rwnd id = some ack
  | .nack _ | .ping _ | .pong _ _ _ | .datagram _ _ => True

end SequenceSession

theorem OutgoingMessage.getFragment_congr {msg msg' : OutgoingMessage}
    (h : msg'.content = msg.content) (idx : Nat) : msg'.getFragment idx = msg.getFragment idx := by
  simp only [content, Prod.mk.injEq] at h
  simp [getFragment, h]

namespace FlushState

variable {state : FlushState C}

@[simp]
theorem session_update (state : FlushState C) (f : SequenceSession C → SequenceSession C) :
    (state.update f).session = f state.session := rfl

variable {answer : Bool} {offered : FlushState C} {packet : Packet}

theorem session_offer (heq : state.offer packet = (answer, offered)) :
    offered.session = state.session := by
  unfold offer at heq
  split at heq
  · cases heq
    rfl
  · cases heq
    rfl
  · cases heq
    rfl

/-- The transport has a packet if and only if it takes it. -/
theorem accepted_offer (heq : state.offer packet = (answer, offered)) :
    offered.accepted = state.accepted ++ if answer then [packet] else [] := by
  unfold offer at heq
  split at heq
  · cases heq
    rfl
  · cases heq
    rfl
  · cases heq
    exact (List.append_nil _).symm

/-- An offer after an update is the update after the offer. -/
theorem offer_of_update {f : SequenceSession C → SequenceSession C}
    (heq : (state.update f).offer packet = (answer, offered)) :
    ∃ before, state.offer packet = (answer, before) ∧ offered = before.update f := by
  cases hbefore : state.offer packet with
  | mk answer' before =>
      have hsame : (state.update f).offer packet = (answer', before.update f) := by
        unfold offer at hbefore ⊢
        dsimp only [update] at *
        split at hbefore
        · cases hbefore
          simp_all
        · cases hbefore
          simp_all
        · cases hbefore
          simp_all
      rw [heq] at hsame
      cases hsame
      exact ⟨before, rfl, rfl⟩

/-- Replacing a message by one with the same view keeps all views. -/
theorem sameOutgoing_insert {session session' : SequenceSession C} {id : MessageId}
    {msg msg' : OutgoingMessage} (hget : session.outgoing.get id = some msg)
    (hout : session'.outgoing = session.outgoing.insert id msg')
    (hview : msg'.ackView = msg.ackView) : session'.SameOutgoing session := by
  intro other
  rw [hout, Library.AssocMap.get_insert]
  split
  next heq =>
    rw [heq, hget]
    simp [hview]
  next => rfl

theorem owedAck_congr {first second : SequenceSession C}
    (h : first.receiveView = second.receiveView) (rwnd : Nat) (id : MessageId) :
    owedAck first rwnd id = owedAck second rwnd id := by
  simp only [SequenceSession.receiveView, Prod.mk.injEq] at h
  simp only [owedAck, h]

theorem ackView_markFragmentSent (msg : OutgoingMessage) (idx : Nat) (now : Instant)
    (delivered : Nat) (lastDelivery : Instant) (appLimited : Bool) (size : Nat) :
    (msg.markFragmentSent idx now delivered lastDelivery appLimited size).2.ackView =
      msg.ackView := rfl

theorem ackView_popRetransmit (msg : OutgoingMessage) :
    (popRetransmit msg).ackView = msg.ackView := by
  unfold popRetransmit
  split <;> rfl

theorem detectAppLimited_eq [CongestionControl C] (session : SequenceSession C) :
    ∃ appLimited, detectAppLimited session = { session with appLimited := appLimited } := by
  unfold detectAppLimited
  dsimp only
  split
  · exact ⟨true, rfl⟩
  · exact ⟨session.appLimited, rfl⟩

end FlushState

end MerkleTox.Sequenced
