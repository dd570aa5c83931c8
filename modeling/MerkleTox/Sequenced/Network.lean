import MerkleTox.Library.Run
import MerkleTox.Sequenced.Receive

/-! # Two sessions over a lossy network

Two honest sessions and the packets each of them ever handed to the transport.
A delivery hands any packet of one side to the other side, at any time and any
number of times: dropping, delaying, duplicating and reordering packets are all
choices of deliveries. Nothing else enters a session, so packets are not forged.
Times are arguments of the calls and are not related to one another.

Each party keeps two histories that the code does not have: its calls of
`send_message_at` with their results, and the packets it handled with the events
they caused.
-/

namespace MerkleTox.Sequenced

open Proto Library

inductive Side
  | left | right
  deriving DecidableEq, Repr

namespace Side

def other : Side → Side
  | left => right
  | right => left

@[simp]
theorem other_other (side : Side) : side.other.other = side := by cases side <;> rfl

@[simp]
theorem other_ne (side : Side) : side.other ≠ side := by cases side <;> decide

end Side

/-- A finished call of `send_message_at`. -/
structure SendCall where
  envelope : Envelope
  result : Except SequencedError MessageId

/-- A packet handled by a session and the events it caused. -/
structure Delivery where
  packet : Packet
  events : List SessionEvent
  deriving DecidableEq

structure Party (C : Type) where
  session : SequenceSession C
  calls : List SendCall
  deliveries : List Delivery

/-- The calls of a session's owner other than `handle_packet`. The quota is shared
with other sessions, which move its counter. -/
inductive Action
  | sendMessage (messageType : MessageType) (data : Bytes) (now : Instant)
  | setMessageTimeout (messageId : MessageId) (timeout : Duration)
  | sendDatagram (messageType : MessageType) (data : Bytes)
  | flush (now : Instant) (nowMs : Int) (answers : List Bool)
  | cleanup (now : Instant)
  | pollEvent
  | setQuota (quota : ReassemblyQuota)
  | setUsedBytes (usedBytes : Nat)
  | setMaxPerSession (maxPerSession : Nat)

/-- A step of the network: a call at one side, or the delivery to that side of a
packet the other side has sent. -/
inductive Command
  | call (side : Side) (action : Action)
  | deliver (side : Side) (index : Nat) (now : Instant) (systemMs jitter : Int)

structure Network (C : Type) where
  party : Side → Party C
  wire : Side → List Packet

variable {C : Type}

namespace Party

def new (config : SessionConfig C) : Party C := ⟨.new config, [], []⟩

def withSession (party : Party C) (session : SequenceSession C) : Party C :=
  { party with session := session }

variable [FloatOps] [CongestionControl C]

def call (party : Party C) : Action → Party C × List Packet
  | .sendMessage messageType data now =>
      let (result, session) := party.session.sendMessageAt messageType data now
      ({ party with
          session := session
          calls := party.calls ++ [⟨⟨messageType, data⟩, result⟩] },
        [])
  | .setMessageTimeout messageId timeout =>
      (party.withSession (party.session.setMessageTimeout messageId timeout), [])
  | .sendDatagram messageType data =>
      (party.withSession (party.session.sendDatagram messageType data).2, [])
  | .flush now nowMs answers =>
      let (session, packets) := party.session.flushPackets now nowMs answers
      (party.withSession session, packets)
  | .cleanup now => (party.withSession (party.session.cleanup now), [])
  | .pollEvent => (party.withSession party.session.pollEvent.2, [])
  | .setQuota quota => (party.withSession (party.session.setQuota quota), [])
  | .setUsedBytes usedBytes =>
      let quota := { party.session.quota with usedBytes := usedBytes }
      (party.withSession { party.session with quota := quota }, [])
  | .setMaxPerSession maxPerSession =>
      (party.withSession { party.session with maxPerSession := maxPerSession }, [])

def receive (party : Party C) (packet : Packet) (now : Instant) (systemMs jitter : Int) :
    Party C × List Packet :=
  let (session, replies) := party.session.handlePacket packet now systemMs jitter
  ({ party with
      session := session
      deliveries :=
        party.deliveries ++ [⟨packet, session.events.drop party.session.events.length⟩] },
    replies)

end Party

namespace Network

def new (config : Side → SessionConfig C) : Network C :=
  ⟨fun side => .new (config side), fun _ => []⟩

/-- One side has moved and has sent packets. -/
def put (network : Network C) (side : Side) (outcome : Party C × List Packet) : Network C where
  party := fun other => if other = side then outcome.1 else network.party other
  wire := fun other =>
    if other = side then network.wire other ++ outcome.2 else network.wire other

variable [FloatOps] [CongestionControl C]

def step (network : Network C) : Command → Network C
  | .call side action => network.put side ((network.party side).call action)
  | .deliver side index now systemMs jitter =>
      match (network.wire side.other)[index]? with
      | none => network
      | some packet => network.put side ((network.party side).receive packet now systemMs jitter)

/-- The network after a list of commands. -/
def run (config : Side → SessionConfig C) (commands : List Command) : Network C :=
  runFrom step (new config) commands

end Network

/-- Two sessions with the constant window of ten fragments, the left one starting
at id 5; the setting of all runs on concrete inputs. -/
def referenceConfig : Side → SessionConfig FixedWindow
  | .left => ⟨5, ⟨10⟩, .new maxTotalReassemblyBuffer, 0⟩
  | .right => ⟨100, ⟨10⟩, .new maxTotalReassemblyBuffer, 0⟩

abbrev referenceRun (commands : List Command) : Network FixedWindow :=
  @Network.run FixedWindow exactFloatOps _ referenceConfig commands

/-! ### Frames -/

namespace Network

variable (network : Network C) (side : Side) (outcome : Party C × List Packet)

@[simp]
theorem party_put_self : (network.put side outcome).party side = outcome.1 := by simp [put]

@[simp]
theorem party_put_other : (network.put side outcome).party side.other =
    network.party side.other := by
  simp [put]

@[simp]
theorem wire_put_self : (network.put side outcome).wire side = network.wire side ++ outcome.2 := by
  simp [put]

@[simp]
theorem wire_put_other : (network.put side outcome).wire side.other = network.wire side.other := by
  simp [put]

end Network

/-- The events of the data packets a party handled, oldest first. -/
def Party.dataEvents (party : Party C) : List SessionEvent :=
  party.deliveries.flatMap fun delivery =>
    match delivery.packet with
    | .data _ _ _ _ => delivery.events
    | _ => []

/-- The party has completed a message of that id on account of data packets. -/
def Party.HasCompleted (party : Party C) (id : MessageId) : Prop :=
  ∃ messageType payload, SessionEvent.messageCompleted id messageType payload ∈ party.dataEvents

/-- The party has reported the acknowledgement of a message. -/
def Party.HasAcked (party : Party C) (id : MessageId) : Prop :=
  ∃ delivery ∈ party.deliveries, SessionEvent.messageAcked id ∈ delivery.events

/-! ### What a received packet does to a party -/

namespace SequenceSession

/-- The receiving side of a session. -/
def receiverView (session : SequenceSession C) :=
  (session.incoming, session.completedIncoming, session.highestReceivedId)

theorem ackView_nackIndex (work : NackWork) (idx : Nat) :
    (nackIndex work idx).msg.ackView = work.msg.ackView := by
  simp only [nackIndex]
  split
  next => rfl
  next =>
    split
    next => split <;> rfl
    next => split <;> rfl

theorem ackView_foldl_nackIndex (indices : List Nat) (work : NackWork) :
    (indices.foldl nackIndex work).msg.ackView = work.msg.ackView := by
  induction indices generalizing work with
  | nil => rfl
  | cons idx rest ih => exact (ih _).trans (ackView_nackIndex work idx)

variable [CongestionControl C] (session : SequenceSession C)

theorem handleNackPacket_spec (nack : Nack) (now : Instant) :
    (session.handleNackPacket nack now).nextMessageId = session.nextMessageId ∧
      (session.handleNackPacket nack now).receiverView = session.receiverView ∧
      (session.handleNackPacket nack now).SameOutgoing session ∧
      (session.handleNackPacket nack now).events = session.events := by
  simp only [handleNackPacket]
  split
  next => exact ⟨rfl, rfl, .of_eq rfl, rfl⟩
  next msg hget =>
    refine ⟨rfl, rfl, FlushState.sameOutgoing_insert hget rfl ?_, rfl⟩
    have hwork := ackView_foldl_nackIndex nack.missingIndices
      ⟨msg, session.inFlight, .new, false, false⟩
    split
    next => exact hwork
    next => exact hwork

variable [FloatOps]

theorem checkCwndChange_spec :
    session.checkCwndChange.outgoing = session.outgoing ∧
      session.checkCwndChange.nextMessageId = session.nextMessageId ∧
      session.checkCwndChange.receiverView = session.receiverView ∧
      ∃ extra, session.checkCwndChange.events = session.events ++ extra ∧
        ∀ event ∈ extra, ∃ cwnd, event = .congestionWindowChanged cwnd := by
  simp only [checkCwndChange]
  split
  next =>
    refine ⟨rfl, rfl, rfl, [.congestionWindowChanged _], rfl, ?_⟩
    intro event hevent
    exact ⟨_, List.mem_singleton.mp hevent⟩
  next => exact ⟨rfl, rfl, rfl, [], by simp, by simp⟩

/-- The effect of an acknowledgement on the outgoing messages and the events. -/
inductive AckOutcome (session : SequenceSession C) (ack : SelectiveAck) (now : Instant)
    (session' : SequenceSession C) : Prop
  | unknown (hget : session.outgoing.get ack.messageId = none)
      (hout : session'.outgoing = session.outgoing) (hevents : session'.events = session.events)
  | acked (msg : OutgoingMessage) (hget : session.outgoing.get ack.messageId = some msg)
      (hother : ∀ id, id ≠ ack.messageId → session'.outgoing.get id = session.outgoing.get id)
      (hself : session'.outgoing.get ack.messageId =
        some (msg.onAck ack.baseIndex ack.bitmask now session.deliveredBytes).2)
      (hevents : session'.events = session.events)
  | finished (msg : OutgoingMessage) (hget : session.outgoing.get ack.messageId = some msg)
      (hall : (msg.onAck ack.baseIndex ack.bitmask now session.deliveredBytes).2.allAcked = true)
      (hother : ∀ id, id ≠ ack.messageId → session'.outgoing.get id = session.outgoing.get id)
      (hself : session'.outgoing.get ack.messageId = none)
      (hevents : session'.events =
        session.events ++ [.messageAcked ack.messageId, .readyToSend])

theorem handleAckPacket_spec (ack : SelectiveAck) (now : Instant) :
    (session.handleAckPacket ack now).nextMessageId = session.nextMessageId ∧
      (session.handleAckPacket ack now).receiverView = session.receiverView ∧
      AckOutcome session ack now (session.handleAckPacket ack now) := by
  simp only [handleAckPacket]
  split
  next msg hget =>
    simp only [acknowledge]
    split
    next hall =>
      refine ⟨rfl, rfl, .finished msg hget hall (fun id hne => ?_) ?_ ?_⟩
      · simp only [pushEvent]
        rw [AssocMap.get_erase_of_ne _ hne, AssocMap.get_insert_of_ne _ _ hne]
      · simp [pushEvent]
      · simp [pushEvent]
    next =>
      refine ⟨rfl, rfl, .acked msg hget (fun id hne => ?_) ?_ rfl⟩
      · rw [AssocMap.get_insert_of_ne _ _ hne]
      · rw [AssocMap.get_insert_self]
  next hget => exact ⟨rfl, rfl, .unknown hget rfl rfl⟩

end SequenceSession

namespace SequenceSession

/-- Removing expired reassemblers one by one only moves quota. -/
theorem exists_foldl_release (expired : List (MessageId × MessageReassembler))
    (start : SequenceSession C) :
    ∃ size quota, expired.foldl
      (fun session entry => { session with
        incomingBufferSize := session.incomingBufferSize - entry.2.reservedBytes
        quota := session.quota.release entry.2.reservedBytes }) start =
      { start with incomingBufferSize := size, quota := quota } := by
  induction expired generalizing start with
  | nil => exact ⟨start.incomingBufferSize, start.quota, rfl⟩
  | cons entry rest ih =>
      obtain ⟨size, quota, heq⟩ := ih { start with
        incomingBufferSize := start.incomingBufferSize - entry.2.reservedBytes
        quota := start.quota.release entry.2.reservedBytes }
      exact ⟨size, quota, heq⟩

/-- Giving up messages one by one leaves them in place. -/
theorem exists_foldl_failMessage (failed : List (MessageId × OutgoingMessage))
    (start : SequenceSession C) :
    ∃ events inFlight scheduler, failed.foldl failMessage start =
      { start with events := events, inFlight := inFlight, scheduler := scheduler } := by
  induction failed generalizing start with
  | nil => exact ⟨start.events, start.inFlight, start.scheduler, rfl⟩
  | cons entry rest ih =>
      obtain ⟨events, inFlight, scheduler, heq⟩ := ih (start.failMessage entry)
      exact ⟨events, inFlight, scheduler, heq⟩

theorem cleanup_spec (session : SequenceSession C) (now : Instant) :
    (session.cleanup now).nextMessageId = session.nextMessageId ∧
      (∀ id, (session.cleanup now).outgoing.get id =
        (session.outgoing.get id).filter fun msg => !outgoingExpired now msg) ∧
      (∀ id, (session.cleanup now).incoming.get id =
        (session.incoming.get id).filter fun entry => !reassemblyExpired now entry) ∧
      (∀ id, (session.cleanup now).completedIncoming.get id =
        (session.completedIncoming.get id).filter fun entry =>
          decide (durationSince now entry.2 < fromSecs 30)) ∧
      (session.cleanup now).highestReceivedId = session.highestReceivedId := by
  obtain ⟨size, quota, heq⟩ := exists_foldl_release
    (session.incoming.entries.filter fun entry => reassemblyExpired now entry.2) session
  simp only [cleanup, heq]
  set kept : SequenceSession C := { session with
    incomingBufferSize := size
    quota := quota
    incoming := session.incoming.retain fun _ reassembler => !reassemblyExpired now reassembler }
    with hkept
  obtain ⟨events, inFlight, scheduler, hfold⟩ := exists_foldl_failMessage
    (kept.outgoing.entries.filter fun entry => outgoingExpired now entry.2) kept
  have houtgoing : kept.outgoing = session.outgoing := rfl
  rw [houtgoing] at hfold
  rw [hfold]
  refine ⟨rfl, fun id => ?_, fun id => ?_, fun id => ?_, rfl⟩
  · exact AssocMap.get_retain session.outgoing (fun _ msg => !outgoingExpired now msg) id
  · exact AssocMap.get_retain session.incoming
      (fun _ reassembler => !reassemblyExpired now reassembler) id
  · exact AssocMap.get_retain session.completedIncoming
      (fun _ completed => decide (durationSince now completed.2 < fromSecs 30)) id

end SequenceSession

namespace Party

variable [FloatOps] [CongestionControl C]

/-- Everything a call of the owner can do. -/
inductive CallOutcome (party : Party C) : Action → Party C → List Packet → Prop
  | sent (messageType : MessageType) (data : Bytes) (now : Instant) :
      CallOutcome party (.sendMessage messageType data now)
        { party with
          session := (party.session.sendMessageAt messageType data now).2
          calls := party.calls ++ [⟨⟨messageType, data⟩,
            (party.session.sendMessageAt messageType data now).1⟩] }
        []
  | transmitted (action : Action) (session' : SequenceSession C) (packets : List Packet)
      (hnext : session'.nextMessageId = party.session.nextMessageId)
      (hview : session'.receiverView = party.session.receiverView)
      (hout : session'.SameOutgoing party.session)
      (hpackets : ∀ packet ∈ packets, party.session.Entitled packet) :
      CallOutcome party action (party.withSession session') packets
  | cleaned (now : Instant) :
      CallOutcome party (.cleanup now) (party.withSession (party.session.cleanup now)) []

variable (party : Party C)

theorem call_outcome (action : Action) :
    CallOutcome party action (party.call action).1 (party.call action).2 := by
  have hquiet : ∀ (action : Action) (session' : SequenceSession C),
      session'.nextMessageId = party.session.nextMessageId →
      session'.receiverView = party.session.receiverView →
      session'.SameOutgoing party.session →
      CallOutcome party action (party.withSession session') [] :=
    fun action session' hnext hview hout =>
      .transmitted action session' [] hnext hview hout (by simp)
  cases action with
  | sendMessage messageType data now => exact .sent messageType data now
  | setMessageTimeout messageId timeout =>
      refine hquiet _ _ rfl rfl fun id => ?_
      simp only [SequenceSession.setMessageTimeout]
      by_cases heq : id = messageId
      · subst heq
        rw [AssocMap.get_modify_self, Option.map_map]
        rfl
      · rw [AssocMap.get_modify_of_ne _ _ heq]
  | sendDatagram messageType data =>
      simp only [call, SequenceSession.sendDatagram]
      split
      next => exact hquiet _ _ rfl rfl (.of_eq rfl)
      next => split <;> exact hquiet _ _ rfl rfl (.of_eq rfl)
  | flush now nowMs answers =>
      obtain ⟨hview, hout, hpackets⟩ := party.session.flushPackets_spec now nowMs answers
      simp only [SequenceSession.receiveView, Prod.mk.injEq] at hview
      obtain ⟨hnext, hincoming, hcompleted, -, hhighest, -⟩ := hview
      have hreceiver : (party.session.flushPackets now nowMs answers).1.receiverView =
          party.session.receiverView := by
        simp only [SequenceSession.receiverView, hincoming, hcompleted, hhighest]
      exact .transmitted _ _ _ hnext hreceiver hout hpackets
  | cleanup now => exact .cleaned now
  | pollEvent | setQuota quota | setUsedBytes usedBytes
  | setMaxPerSession maxPerSession => exact hquiet _ _ rfl rfl (.of_eq rfl)

/-- Events that report neither a completion nor an acknowledgement. -/
def OnlyWindowChanges (events : List SessionEvent) : Prop :=
  ∀ event ∈ events, ∃ cwnd, event = .congestionWindowChanged cwnd

/-- The parts of a party that a packet may change: the sending side, the receiving
side, the packets handled. -/
theorem receive_data (id : MessageId) (index total : Nat) (data : Bytes)
    (now : Instant) (systemMs jitter : Int) :
    ∃ middle extra,
      SequenceSession.DataOutcome { party.session with lastActivity := now } id index total data
        now middle (party.receive (.data id index total data) now systemMs jitter).2 ∧
      (party.receive (.data id index total data) now systemMs jitter).1.session.receiverView =
        middle.receiverView ∧
      (party.receive (.data id index total data) now systemMs jitter).1.session.outgoing =
        party.session.outgoing ∧
      (party.receive (.data id index total data) now systemMs jitter).1.session.nextMessageId =
        party.session.nextMessageId ∧
      (party.receive (.data id index total data) now systemMs jitter).1.calls = party.calls ∧
      (party.receive (.data id index total data) now systemMs jitter).1.deliveries =
        party.deliveries ++ [⟨.data id index total data,
          (middle.events ++ extra).drop party.session.events.length⟩] ∧
      OnlyWindowChanges extra := by
  obtain ⟨hout, hnext, houtcome⟩ := SequenceSession.handleDataPacket_outcome
    { party.session with lastActivity := now } id index total data now
  set middle := SequenceSession.handleDataPacket
    { party.session with lastActivity := now } id index total data now with hmiddle
  obtain ⟨hout', hnext', hview', extra, hevents', hextra⟩ := middle.1.checkCwndChange_spec
  refine ⟨middle.1, extra, houtcome, hview', hout'.trans hout, hnext'.trans hnext, rfl, ?_, hextra⟩
  simp only [receive, SequenceSession.handlePacket, SequenceSession.handlePacketInternal,
    ← hmiddle, hevents']

theorem receive_ack (ack : SelectiveAck) (now : Instant)
    (systemMs jitter : Int) :
    (party.receive (.ack ack) now systemMs jitter).2 = [] ∧
      ∃ middle extra,
        SequenceSession.AckOutcome { party.session with lastActivity := now } ack now middle ∧
        (party.receive (.ack ack) now systemMs jitter).1.session.receiverView =
          party.session.receiverView ∧
        (party.receive (.ack ack) now systemMs jitter).1.session.outgoing = middle.outgoing ∧
        (party.receive (.ack ack) now systemMs jitter).1.session.nextMessageId =
          party.session.nextMessageId ∧
        (party.receive (.ack ack) now systemMs jitter).1.calls = party.calls ∧
        (party.receive (.ack ack) now systemMs jitter).1.deliveries =
          party.deliveries ++ [⟨.ack ack,
            (middle.events ++ extra).drop party.session.events.length⟩] ∧
        OnlyWindowChanges extra := by
  obtain ⟨hnext, hview, houtcome⟩ := SequenceSession.handleAckPacket_spec
    { party.session with lastActivity := now } ack now
  set middle := SequenceSession.handleAckPacket
    { party.session with lastActivity := now } ack now with hmiddle
  obtain ⟨hout', hnext', hview', extra, hevents', hextra⟩ := middle.checkCwndChange_spec
  refine ⟨rfl, middle, extra, houtcome, hview'.trans hview, hout', hnext'.trans hnext, rfl, ?_,
    hextra⟩
  simp only [receive, SequenceSession.handlePacket, SequenceSession.handlePacketInternal,
    ← hmiddle, hevents']

/-- Packets that carry neither fragments nor acknowledgements. -/
def IsControl : Packet → Prop
  | .data _ _ _ _ | .ack _ => False
  | _ => True

theorem receive_control {packet : Packet} (hcontrol : IsControl packet)
    (now : Instant) (systemMs jitter : Int) :
    (∀ reply ∈ (party.receive packet now systemMs jitter).2, IsControl reply) ∧
      (party.receive packet now systemMs jitter).1.session.receiverView =
        party.session.receiverView ∧
      (party.receive packet now systemMs jitter).1.session.SameOutgoing party.session ∧
      (party.receive packet now systemMs jitter).1.session.nextMessageId =
        party.session.nextMessageId ∧
      (party.receive packet now systemMs jitter).1.calls = party.calls ∧
      ∃ events, (party.receive packet now systemMs jitter).1.deliveries =
          party.deliveries ++ [⟨packet, events⟩] ∧
        ∀ id, SessionEvent.messageAcked id ∉ events := by
  set touched : SequenceSession C := { party.session with lastActivity := now } with htouched
  set middle := touched.handlePacketInternal packet now systemMs jitter with hmiddle
  -- the packet itself, before the congestion window is checked
  have hinternal : (∀ reply ∈ middle.2, IsControl reply) ∧
      middle.1.receiverView = party.session.receiverView ∧
      middle.1.SameOutgoing party.session ∧
      middle.1.nextMessageId = party.session.nextMessageId ∧
      ∃ new, middle.1.events = party.session.events ++ new ∧
        ∀ id, SessionEvent.messageAcked id ∉ new := by
    cases packet with
    | data id index total data => exact hcontrol.elim
    | ack ack => exact hcontrol.elim
    | nack nack =>
        obtain ⟨hnext, hview, hout, hevents⟩ := touched.handleNackPacket_spec nack now
        exact ⟨by simp [hmiddle, SequenceSession.handlePacketInternal], hview, hout, hnext, [],
          by rw [List.append_nil]; exact hevents, by simp⟩
    | ping t1 =>
        refine ⟨?_, rfl, .of_eq rfl, rfl, [], by rw [List.append_nil]; rfl, by simp⟩
        intro reply hreply
        rw [List.mem_singleton.mp hreply]
        trivial
    | pong t1 t2 t3 =>
        simp only [hmiddle, SequenceSession.handlePacketInternal, SequenceSession.handlePong]
        split <;> exact ⟨by simp, rfl, .of_eq rfl, rfl, [], by simp [htouched], by simp⟩
    | datagram messageType data =>
        exact ⟨by simp [hmiddle, SequenceSession.handlePacketInternal], rfl, .of_eq rfl, rfl,
          [.messageCompleted 0 messageType data], rfl, by simp⟩
  obtain ⟨hreplies, hview, hout, hnext, new, hevents, hnew⟩ := hinternal
  obtain ⟨hout', hnext', hview', extra, hevents', hextra⟩ := middle.1.checkCwndChange_spec
  refine ⟨hreplies, hview'.trans hview, ?_, hnext'.trans hnext, rfl, new ++ extra, ?_, ?_⟩
  · intro id
    exact (congrArg (fun outgoing => (outgoing.get id).map OutgoingMessage.ackView) hout').trans
      (hout id)
  · simp only [receive, SequenceSession.handlePacket, ← htouched, ← hmiddle, hevents', hevents,
      List.append_assoc, List.drop_left]
  · intro id hid
    rcases List.mem_append.mp hid with h | h
    · exact hnew id h
    · obtain ⟨cwnd, hcwnd⟩ := hextra _ h
      cases hcwnd

end Party

end MerkleTox.Sequenced
