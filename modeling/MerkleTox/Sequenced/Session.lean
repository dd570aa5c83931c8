import MerkleTox.Sequenced.Pacing

/-! # The sequenced session

The state of one end of a reliable session and the calls its owner makes on it.
Replies of `handle_packet` are returned; the packets of `flush_packets` go
through the transport's answers, one Boolean for each offered packet. Clock
readings, the system time and the jitter of a pong are arguments.
-/

namespace MerkleTox.Sequenced

open Proto

def pingIntervalIdle : Duration := fromSecs 60
def pingIntervalActive : Duration := fromSecs 10
def connectionTimeout : Duration := fromSecs 300
def fairShareGuarantee : Nat := 16 * 1024

structure SequenceSession (C : Type) where
  nextMessageId : MessageId
  outgoing : FlatMap MessageId OutgoingMessage
  incoming : FlatMap MessageId MessageReassembler
  quota : ReassemblyQuota
  maxPerSession : Nat
  incomingBufferSize : Nat
  completedIncoming : FlatMap MessageId (SelectiveAck × Instant)
  pendingAcks : FlatMap MessageId (Nat × Instant)
  pendingNacks : FlatMap MessageId Instant
  datagramQueue : List (MessageType × Bytes)
  scheduler : PriorityScheduler
  events : List SessionEvent
  rtt : RttEstimator
  congestionControl : C
  inFlight : Nat
  peerRwnd : Nat
  deliveredBytes : Nat
  lastDeliveryTime : Instant
  lastPing : Instant
  lastPingSent : Option Instant
  lastActivity : Instant
  nextPacingTime : Instant
  lastRwndProbe : Instant
  zeroWindowProbesSent : Nat
  lastEmittedCwnd : Nat
  appLimited : Bool
  highestReceivedId : Option MessageId
  retransmitCount : Nat
  clockOffset : Int

/-- What the owner of a session fixes when it creates one; the first id comes
from the session's random generator. -/
structure SessionConfig (C : Type) where
  firstId : MessageId
  congestionControl : C
  quota : ReassemblyQuota
  now : Instant

def calculatePriority (messageType : Option MessageType) (totalFragments sizeEst : Nat) :
    Priority :=
  if messageType.any fun mtype => mtype.priority = .critical then .critical
  else if totalFragments = 1 then .standard
  else match messageType with
    | some mtype => mtype.priority
    | none => if sizeEst < 32 * 1024 then .standard else .bulk

namespace SequenceSession

variable {C : Type} (session : SequenceSession C)

/-- `with_congestion_control_and_quota_at`, which every constructor ends in. -/
def new (config : SessionConfig C) : SequenceSession C where
  nextMessageId := config.firstId
  outgoing := .empty
  incoming := .empty
  quota := config.quota
  maxPerSession := maxTotalReassemblyBuffer
  incomingBufferSize := 0
  completedIncoming := .empty
  pendingAcks := .empty
  pendingNacks := .empty
  datagramQueue := []
  scheduler := .new
  events := []
  rtt := .new
  congestionControl := config.congestionControl
  inFlight := 0
  peerRwnd := maxTotalReassemblyBuffer
  deliveredBytes := 0
  lastDeliveryTime := config.now
  lastPing := config.now - connectionTimeout
  lastPingSent := none
  lastActivity := config.now
  nextPacingTime := config.now
  lastRwndProbe := config.now
  zeroWindowProbesSent := 0
  lastEmittedCwnd := 0
  appLimited := true
  highestReceivedId := none
  retransmitCount := 0
  clockOffset := 0

def setQuota (quota : ReassemblyQuota) : SequenceSession C :=
  { session with quota :=
      if 0 < session.incomingBufferSize then
        (quota.reserveGuaranteed session.incomingBufferSize).2
      else quota }

/-- Steps over at most `rounds` ids that are still in use. -/
def freeId (outgoing : FlatMap MessageId OutgoingMessage) : Nat → MessageId → MessageId
  | 0, id => id
  | rounds + 1, id => if outgoing.contains id then freeId outgoing rounds (id + 1) else id

/-- Queue a message. The id counter moves before the size checks, so a message
that is too large still takes an id. -/
def sendMessageAt (messageType : MessageType) (data : Bytes) (now : Instant) :
    Except SequencedError MessageId × SequenceSession C :=
  if maxConcurrentOutgoing ≤ session.outgoing.size then (.error .queueFull, session)
  else
    let id := freeId session.outgoing maxConcurrentOutgoing session.nextMessageId
    if session.outgoing.contains id then (.error .queueFull, session)
    else
      let session := { session with nextMessageId := id + 1 }
      let fullPayload := (Envelope.mk messageType data).serialize
      if maxMessageSize < fullPayload.length then (.error .messageTooLarge, session)
      else
        let payloadMtu := maxToxPacketSize - packetOverhead
        if payloadMtu = 0 then (.error .messageTooLarge, session)
        else match OutgoingMessage.new messageType fullPayload payloadMtu now with
          | .error err => (.error err, session)
          | .ok msg =>
              (.ok id,
                { session with
                  scheduler := session.scheduler.updateMessage id messageType.priority.level
                  outgoing := session.outgoing.insert id msg })

def setMessageTimeout (messageId : MessageId) (timeout : Duration) : SequenceSession C :=
  { session with outgoing :=
      session.outgoing.modify messageId fun msg => { msg with timeout := timeout } }

def sendDatagram (messageType : MessageType) (data : Bytes) :
    Except SequencedError Unit × SequenceSession C :=
  if maxDatagramQueue ≤ session.datagramQueue.length then (.error .queueFull, session)
  else if maxToxPacketSize < data.length + 10 then (.error .messageTooLarge, session)
  else (.ok (), { session with datagramQueue := session.datagramQueue ++ [(messageType, data)] })

def pushEvent (event : SessionEvent) : SequenceSession C :=
  { session with events := session.events ++ [event] }

def pollEvent : Option SessionEvent × SequenceSession C :=
  (session.events.head?, { session with events := session.events.tail })

/-- The advertised receive window in fragments, a `u16`. -/
def currentRwnd : Nat :=
  let planned := (session.incoming.values.map MessageReassembler.plannedTotalSize).sum
  let localAvail := session.maxPerSession - planned
  min (min localAvail session.quota.available / estimatedPayloadSize) (2 ^ 16 - 1)

def createRejectionAck (messageId : MessageId) : Packet :=
  .ack ⟨messageId, 0, 0, session.currentRwnd⟩

/-- The keep-alive interval, shorter while messages are under way. -/
def pingInterval : Duration :=
  if !session.outgoing.isEmpty || !session.incoming.isEmpty then pingIntervalActive
  else pingIntervalIdle

/-! ### Incoming data -/

def checkCompletedMessage (messageId : MessageId) : Option Packet :=
  (session.completedIncoming.get messageId).map fun entry =>
    .ack { entry.1 with rwnd := session.currentRwnd }

/-- Ids that lie too far behind the highest one received. -/
def isAncientMessage (messageId : MessageId) : Bool :=
  match session.highestReceivedId with
  | none => false
  | some highest =>
      let diff := (messageId - highest).toNat
      let known := session.incoming.contains messageId ||
        session.completedIncoming.contains messageId
      if 0x80000000 < diff then
        let offset := (highest - messageId).toNat
        decide (maxCompletedIncoming ≤ offset) || (!known && decide (32 < offset))
      else decide (diff = 0) && !known

/-- Reserve quota for `amount` more bytes of this session; a refused reservation
is given back. -/
def reserveBytes (amount : Nat) (priority : Priority) : Bool × ReassemblyQuota :=
  let (reserved, quota) :=
    if session.incomingBufferSize + amount ≤ fairShareGuarantee then
      session.quota.reserveGuaranteed amount
    else session.quota.reserve amount priority
  if !reserved ∨ session.maxPerSession < session.incomingBufferSize + amount then
    (false, if reserved then quota.release amount else quota)
  else (true, quota)

def initialReservation (totalFragments dataLen : Nat) : Nat :=
  if 1 < totalFragments then max dataLen estimatedPayloadSize * totalFragments else dataLen

/-- The first fragment, when it arrives, fixes the priority by the message type. -/
def reprioritise (messageType : Option MessageType) (totalFragments : Nat)
    (entry : MessageReassembler) : MessageReassembler :=
  match messageType with
  | some mtype =>
      { entry with priority := calculatePriority (some mtype) totalFragments entry.reservedBytes }
  | none => entry

/-- Find or create the reassembler of a message; the packets are replies. -/
def ensureReassembler (messageId : MessageId) (messageType : Option MessageType)
    (totalFragments dataLen : Nat) (now : Instant) :
    Bool × SequenceSession C × List Packet :=
  match session.incoming.get messageId with
  | some entry =>
      let session := { session with
        incoming := session.incoming.modify messageId (reprioritise messageType totalFragments) }
      (entry.totalFragments == totalFragments, session, [])
  | none =>
      if maxConcurrentIncoming ≤ session.incoming.size then
        (false, session, [session.createRejectionAck messageId])
      else
        let reservation := initialReservation totalFragments dataLen
        let priority := calculatePriority messageType totalFragments reservation
        let (reserved, quota) := session.reserveBytes reservation priority
        let session := { session with quota := quota }
        if !reserved then (false, session, [session.createRejectionAck messageId])
        else match MessageReassembler.new messageId totalFragments priority reservation now with
          | .ok reassembler =>
              (true,
                { session with
                  incomingBufferSize := session.incomingBufferSize + reservation
                  incoming := session.incoming.insert messageId reassembler
                  highestReceivedId :=
                    if session.highestReceivedId.all fun highest =>
                        (messageId - highest).toNat < 0x80000000 then some messageId
                    else session.highestReceivedId },
                [])
          | .error _ =>
              let session := { session with quota := session.quota.release reservation }
              (false, session, [session.createRejectionAck messageId])

/-- Remove a reassembler and give its reservation back. -/
def removeReassembler (messageId : MessageId) (reassembler : MessageReassembler) :
    SequenceSession C :=
  { session with
    incoming := session.incoming.erase messageId
    incomingBufferSize := session.incomingBufferSize - reassembler.reservedBytes
    quota := session.quota.release reassembler.reservedBytes }

def noteHole (messageId : MessageId) (index baseIndex : Nat) (now : Instant) : SequenceSession C :=
  { session with pendingNacks :=
      if baseIndex + 30 < index then
        session.pendingNacks.insert messageId (now - (fromSecs 1 : Nat))
      else if baseIndex < index then session.pendingNacks.orInsert messageId now
      else session.pendingNacks }

/-- Bring the reservation of an entry to its planned size; `none` when the growth
is refused. -/
def adjustReservation (entry : MessageReassembler) :
    Option (SequenceSession C × MessageReassembler) :=
  let planned := entry.plannedTotalSize
  if entry.reservedBytes < planned then
    let addition := planned - entry.reservedBytes
    let (reserved, quota) := session.reserveBytes addition entry.priority
    if !reserved then none
    else some
      ({ session with
          quota := quota
          incomingBufferSize := session.incomingBufferSize + addition },
        { entry with reservedBytes := planned })
  else
    let reduction := entry.reservedBytes - planned
    some
      ({ session with
          quota := session.quota.release reduction
          incomingBufferSize := session.incomingBufferSize - reduction },
        { entry with reservedBytes := planned })

/-- Record a completion, forgetting the oldest record beyond the capacity. -/
def insertCompleted (completed : FlatMap MessageId (SelectiveAck × Instant))
    (messageId : MessageId) (ack : SelectiveAck) (now : Instant) :
    FlatMap MessageId (SelectiveAck × Instant) :=
  let completed := completed.insert messageId (ack, now)
  if maxCompletedIncoming < completed.size then
    match completed.keys with
    | oldest :: _ => completed.erase oldest
    | [] => completed
  else completed

def rememberCompleted (messageId : MessageId) (ack : SelectiveAck) (now : Instant) :
    SequenceSession C :=
  { session with
    completedIncoming := insertCompleted session.completedIncoming messageId ack now
    pendingAcks := session.pendingAcks.insert messageId (2, now) }

/-- Hand a complete message to the application. -/
def completeMessage (messageId : MessageId) (entry : MessageReassembler) (now : Instant) :
    SequenceSession C :=
  let session := { session with pendingNacks := session.pendingNacks.erase messageId }
  let session := session.removeReassembler messageId entry
  let ack := entry.createAck session.currentRwnd
  match entry.assemble with
  | none => session
  | some assembled =>
      match Envelope.deserialize assembled with
      | some envelope =>
          (session.pushEvent (.messageCompleted messageId envelope.messageType
            envelope.payload)).rememberCompleted messageId ack now
      | none => session.rememberCompleted messageId ack now

/-- What `process_fragment` does once the entry has taken the fragment. -/
def fragmentAdded (messageId : MessageId) (entry : MessageReassembler) (complete : Bool)
    (now : Instant) :
    SequenceSession C × List Packet :=
  match session.adjustReservation entry with
  | none =>
      let session := session.removeReassembler messageId entry
      (session, [session.createRejectionAck messageId])
  | some (session, entry) =>
      if complete then (session.completeMessage messageId entry now, [])
      else
        ({ session with
            incoming := session.incoming.insert messageId entry
            pendingAcks :=
              (session.pendingAcks.orInsert messageId (0, now)).modify messageId fun pending =>
                (pending.1 + 1, pending.2) },
          [])

def processFragment (messageId : MessageId) (index : Nat) (data : Bytes) (now : Instant) :
    SequenceSession C × List Packet :=
  match session.incoming.get messageId with
  | none => (session, [])
  | some entry =>
      match entry.addFragment index data now with
      | (.error _, entry) => (session.removeReassembler messageId entry, [])
      | (.ok complete, entry) =>
          (session.noteHole messageId index entry.buffer.baseIndex now).fragmentAdded
            messageId entry complete now

/-- The message type, when the packet carries the first fragment. -/
def peekedType (index : Nat) (data : Bytes) : Option MessageType :=
  if index = 0 then peekMessageType data else none

def handleDataPacket (messageId : MessageId) (index totalFragments : Nat) (data : Bytes)
    (now : Instant) :
    SequenceSession C × List Packet :=
  match session.checkCompletedMessage messageId with
  | some reply => (session, [reply])
  | none =>
      if session.isAncientMessage messageId then (session, [])
      else
        match session.ensureReassembler messageId (peekedType index data) totalFragments
            data.length now with
        | (false, session, replies) => (session, replies)
        | (true, session, replies) =>
            let (session, more) := session.processFragment messageId index data now
            (session, replies ++ more)

/-! ### Acknowledgements and other packets -/

section Control

variable [FloatOps] [CongestionControl C]

/-- The part of `handle_ack_packet` that finds the message. -/
def acknowledge (ack : SelectiveAck) (msg : OutgoingMessage) (now : Instant) : SequenceSession C :=
  let (res, msg) := msg.onAck ack.baseIndex ack.bitmask now session.deliveredBytes
  let deliveredBytes := session.deliveredBytes + res.newlyDeliveredBytes
  let inFlight := session.inFlight - res.newlyCompletedInFlightBytes
  let congestion :=
    if res.lossDetected then CongestionControl.onNack session.congestionControl now
    else session.congestionControl
  let sample : Option DeliverySample := res.deliverySample.map fun sample =>
    ⟨deliveredBytes - sample.deliveredAtSend, durationSince now sample.deliveryTimeAtSend, now,
      sample.appLimited⟩
  let rtt := match res.minRtt with
    | some minRtt => session.rtt.update minRtt
    | none => session.rtt
  let session :=
    { session with
      outgoing := session.outgoing.insert ack.messageId msg
      deliveredBytes := deliveredBytes
      lastDeliveryTime := if 0 < res.newlyDeliveredBytes then now else session.lastDeliveryTime
      inFlight := inFlight
      rtt := rtt
      congestionControl := CongestionControl.onAck congestion (res.firstRtt.getD rtt.srtt) sample
        res.newlyDeliveredBytes inFlight now }
  if msg.allAcked then
    let session := session.pushEvent (.messageAcked ack.messageId)
    let session :=
      { session with
        scheduler := session.scheduler.removeMessage ack.messageId
        outgoing := session.outgoing.erase ack.messageId }
    session.pushEvent .readyToSend
  else session

def handleAckPacket (ack : SelectiveAck) (now : Instant) : SequenceSession C :=
  let rwndBytes := ack.rwnd * estimatedPayloadSize
  let session :=
    { session with
      zeroWindowProbesSent :=
        if estimatedPayloadSize ≤ rwndBytes then 0 else session.zeroWindowProbesSent
      peerRwnd := rwndBytes }
  match session.outgoing.get ack.messageId with
  | some msg => session.acknowledge ack msg now
  | none =>
      { session with
        congestionControl := CongestionControl.onAck session.congestionControl session.rtt.srtt
          none 0 session.inFlight now }

/-- The mutable locals of the loop over the missing indices. -/
structure NackWork where
  msg : OutgoingMessage
  inFlight : Nat
  toRemove : BitSet bitsetWords
  needsCleanup : Bool
  triggered : Bool

def nackIndex (work : NackWork) (idx : Nat) : NackWork :=
  let msg := work.msg
  if msg.isAcked idx then work
  else
    let state := msg.fragmentState idx
    let (fresh, toRemove) := work.toRemove.set idx
    let work :=
      if state.lastSent.isSome then
        { work with
          msg :=
            { msg with
              fragmentStates := msg.fragmentStates.set idx { state with lastSent := none } }
          inFlight := work.inFlight - msg.fragmentLen idx
          toRemove := toRemove
          needsCleanup := work.needsCleanup || fresh }
      else work
    let msg := work.msg
    { work with
      msg :=
        if msg.retransmitBitset.get idx then msg
        else { msg with
          retransmitQueue := msg.retransmitQueue ++ [idx]
          retransmitBitset := (msg.retransmitBitset.set idx).2 }
      triggered := true }

def handleNackPacket (nack : Nack) (now : Instant) : SequenceSession C :=
  match session.outgoing.get nack.messageId with
  | none => session
  | some msg =>
      let work := nack.missingIndices.foldl nackIndex ⟨msg, session.inFlight, .new, false, false⟩
      let msg :=
        if work.needsCleanup then
          { work.msg with inFlightQueue :=
              work.msg.inFlightQueue.filter fun entry => !work.toRemove.get entry.1 }
        else work.msg
      { session with
        outgoing := session.outgoing.insert nack.messageId msg
        inFlight := work.inFlight
        congestionControl :=
          if work.triggered then CongestionControl.onNack session.congestionControl now
          else session.congestionControl }

def handlePong (t1 t2 t3 t4 : Int) (now : Instant) : SequenceSession C :=
  match session.lastPingSent with
  | none => session
  | some sentTime =>
      let sample := durationSince now sentTime
      { session with
        lastPingSent := none
        rtt := session.rtt.update sample
        clockOffset := ((t2 - t1) + (t3 - t4)).tdiv 2
        congestionControl :=
          CongestionControl.onAck session.congestionControl sample none 0 session.inFlight now }

def checkCwndChange : SequenceSession C :=
  let cwnd := CongestionControl.cwnd session.congestionControl
  let last := session.lastEmittedCwnd
  if FloatOps.cwndThreshold last ≤ max cwnd last - min cwnd last ∨ last = 0 then
    { session.pushEvent (.congestionWindowChanged cwnd) with lastEmittedCwnd := cwnd }
  else session

/-- `handle_packet_internal`; `systemMs` is the system clock, `jitter` the random
offset of a pong. -/
def handlePacketInternal (packet : Packet) (now : Instant) (systemMs jitter : Int) :
    SequenceSession C × List Packet :=
  match packet with
  | .data messageId index total data => session.handleDataPacket messageId index total data now
  | .ack ack => (session.handleAckPacket ack now, [])
  | .nack nack => (session.handleNackPacket nack now, [])
  | .ping t1 => (session, [.pong t1 (systemMs + jitter) (systemMs + jitter)])
  | .pong t1 t2 t3 => (session.handlePong t1 t2 t3 systemMs now, [])
  | .datagram messageType data => (session.pushEvent (.messageCompleted 0 messageType data), [])

def handlePacket (packet : Packet) (now : Instant) (systemMs jitter : Int) :
    SequenceSession C × List Packet :=
  let (session, replies) :=
    { session with lastActivity := now }.handlePacketInternal packet now systemMs jitter
  (session.checkCwndChange, replies)

end Control

/-! ### Clean-up -/

def reassemblyExpired (now : Instant) (reassembler : MessageReassembler) : Bool :=
  reassemblyTimeout ≤ durationSince now reassembler.lastActivity

def outgoingExpired (now : Instant) (msg : OutgoingMessage) : Bool :=
  decide (msg.timeout ≤ durationSince now msg.lastAckAt) ||
    decide (connectionTimeout ≤ durationSince now msg.lastAckAt)

/-- Give up an outgoing message, freeing the bytes it has in flight. -/
def failMessage (entry : MessageId × OutgoingMessage) : SequenceSession C :=
  let (id, msg) := entry
  let inFlight := (List.range msg.fragmentStates.length).foldl
    (fun inFlight idx =>
      if (msg.fragmentState idx).lastSent.isSome then inFlight - msg.fragmentLen idx else inFlight)
    session.inFlight
  let session := session.pushEvent (.messageFailed id "Timed out")
  let session := { session with
    scheduler := session.scheduler.removeMessage id, inFlight := inFlight }
  session.pushEvent .readyToSend

def cleanup (now : Instant) : SequenceSession C :=
  let expired := session.incoming.entries.filter fun entry => reassemblyExpired now entry.2
  let session := expired.foldl
    (fun session entry => { session with
      incomingBufferSize := session.incomingBufferSize - entry.2.reservedBytes
      quota := session.quota.release entry.2.reservedBytes })
    session
  let session := { session with
    incoming := session.incoming.retain fun _ reassembler => !reassemblyExpired now reassembler }
  let failed := session.outgoing.entries.filter fun entry => outgoingExpired now entry.2
  let session := failed.foldl failMessage session
  { session with
    outgoing := session.outgoing.retain fun _ msg => !outgoingExpired now msg
    completedIncoming := session.completedIncoming.retain fun _ completed =>
      decide (durationSince now completed.2 < fromSecs 30) }

end SequenceSession

end MerkleTox.Sequenced
