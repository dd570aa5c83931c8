import MerkleTox.Sequenced.PacketForms
import MerkleTox.Sequenced.Updates

/-! # Emitted packets fit the transport

A session only ever queues messages that are cut for the transport and datagrams that were
checked against it. With the limit on the holes of a NACK, every packet it sends fits.
-/

namespace MerkleTox.Sequenced

open Proto Library

variable {C : Type}

theorem MessageReassembler.length_createNack_go (reassembler : MessageReassembler)
    (rounds curr : Nat) : (createNack.go reassembler rounds curr).length ≤ rounds := by
  induction rounds generalizing curr with
  | zero => exact Nat.le_refl 0
  | succ rounds ih =>
      unfold createNack.go
      split
      next => exact Nat.zero_le _
      next hole _ => exact Nat.succ_le_succ (ih (hole + 1))

/-- A NACK names at most 128 holes. -/
theorem MessageReassembler.bounded_createNack {reassembler : MessageReassembler}
    {baseIndex : Nat} {nack : Nack} (hnack : reassembler.createNack baseIndex = some nack) :
    (Packet.nack nack).Bounded := by
  unfold createNack at hnack
  dsimp only at hnack
  split at hnack
  next => cases hnack
  next =>
    cases hnack
    exact reassembler.length_createNack_go 128 baseIndex

namespace OutgoingMessage

/-- The fragments of a message are no longer than the transport allows. -/
structure CutToFit (msg : OutgoingMessage) : Prop where
  counted : msg.AcksCounted
  mtu : msg.payloadMtu ≤ defaultPayloadMtu

variable {msg after : OutgoingMessage}

theorem CutToFit.of_ackView_eq (h : msg.CutToFit) (hview : after.ackView = msg.ackView) :
    after.CutToFit where
  counted := h.counted.of_ackView_eq hview
  mtu := by
    have hmtu : after.payloadMtu = msg.payloadMtu :=
      congrArg (fun content => content.2.2.1) (content_eq_of_ackView_eq hview)
    exact hmtu ▸ h.mtu

theorem CutToFit.update {delivered : Nat} {before : Option OutgoingMessage}
    (hupdate : Update delivered before msg) (h : ∀ old ∈ before, old.CutToFit) :
    msg.CutToFit := by
  cases hupdate with
  | queued hsize hnew => exact ⟨(new_spec hnew).2.1, (new_fields hnew).2.1.le⟩
  | retimed old timeout => exact (h old rfl).of_ackView_eq rfl
  | sent old idx now lastDelivery appLimited =>
      exact (h old rfl).of_ackView_eq (FlushState.ackView_markFragmentSent old idx now _ _ _ _)
  | advanced old => exact (h old rfl).of_ackView_eq rfl
  | popped old => exact (h old rfl).of_ackView_eq (FlushState.ackView_popRetransmit old)
  | timedOut old idx => exact (h old rfl).of_ackView_eq rfl
  | nacked old indices inFlight =>
      refine (h old rfl).of_ackView_eq (.trans ?_
        (SequenceSession.ackView_foldl_nackIndex indices ⟨old, inFlight, .new, false, false⟩))
      unfold SequenceSession.NackWork.finish
      split <;> rfl

theorem CutToFit.onAck [FloatOps] (h : msg.CutToFit) (ack : SelectiveAck) (now : Instant)
    (total : Nat) : (msg.onAck ack.baseIndex ack.bitmask now total).2.CutToFit := by
  obtain ⟨hcontent, hcounted, -⟩ := msg.onAck_spec ack now total h.counted
  have hmtu : (msg.onAck ack.baseIndex ack.bitmask now total).2.payloadMtu = msg.payloadMtu :=
    congrArg (fun content => content.2.2.1) hcontent
  exact ⟨hcounted, hmtu ▸ h.mtu⟩

end OutgoingMessage

namespace SequenceSession

/-- The limits on what a session has queued. -/
structure Limited (session : SequenceSession C) : Prop where
  messages : session.EveryMessage fun _ msg => msg.CutToFit
  datagrams : ∀ entry ∈ session.datagramQueue, entry.2.length + 10 ≤ maxToxPacketSize

variable {session after : SequenceSession C}

theorem Limited.of_same (h : session.Limited) (hsame : after.SameOutgoing session)
    (hqueue : ∀ entry ∈ after.datagramQueue, entry ∈ session.datagramQueue) :
    after.Limited where
  messages id msg hget := by
    have hview := hsame id
    rw [hget, Option.map_some] at hview
    obtain ⟨original, horiginal, hview⟩ := Option.map_eq_some_iff.mp hview.symm
    exact (h.messages id original horiginal).of_ackView_eq hview.symm
  datagrams entry hmem := h.datagrams entry (hqueue entry hmem)

/-! ## Flushing -/

theorem Limited.silent (h : session.Limited) (hsilent : session.Silent after) :
    after.Limited := by
  cases hsilent with
  | schedule | appLimited | noAck | noNack => exact h.of_same (.of_eq rfl) fun _ hmem => hmem

/-- A turn keeps to the limits, and so does the packet that it sends. -/
theorem Limited.handles (h : session.Limited) {nowMs : Int} {packet : Packet} {answer : Bool}
    (hhandles : session.Handles nowMs packet answer after) :
    after.Limited ∧ (answer = true → packet.Bounded) := by
  cases hhandles with
  | ping => exact ⟨h.of_same (.of_eq rfl) fun _ hmem => hmem, fun _ => trivial⟩
  | @datagram messageType data queue hqueue =>
      refine ⟨h.of_same (.of_eq rfl) fun entry hmem => ?_, fun _ => ?_⟩
      · exact hqueue ▸ List.mem_cons_of_mem _ hmem
      · exact h.datagrams (messageType, data) (hqueue ▸ List.mem_cons_self)
  | lost hqueue =>
      refine ⟨h.of_same (.of_eq rfl) fun entry hmem => ?_, nofun⟩
      exact hqueue ▸ List.mem_cons_of_mem _ hmem
  | @data id msg after hget idx hsame hqueue =>
      refine ⟨h.of_same hsame fun entry hmem => hqueue ▸ hmem, fun _ => ?_⟩
      exact (msg.length_getFragment_le idx).trans (h.messages id msg hget).mtu
  | ack => exact ⟨h.of_same (.of_eq rfl) fun _ hmem => hmem, fun _ => trivial⟩
  | nack hget hnack =>
      exact ⟨h.of_same (.of_eq rfl) fun _ hmem => hmem, fun _ =>
        MessageReassembler.bounded_createNack hnack⟩
  | refused => exact ⟨h, nofun⟩

theorem Limited.flushPackets [FloatOps] [CongestionControl C] (h : session.Limited)
    (now : Instant) (nowMs : Int) (answers : List Bool) :
    (session.flushPackets now nowMs answers).1.Limited ∧
      ∀ packet ∈ (session.flushPackets now nowMs answers).2, packet.Bounded := by
  obtain ⟨turns, hwalk, hpackets⟩ := session.flushPackets_walk now nowMs answers
  obtain ⟨hlimited, hbounded⟩ := hwalk.invariant (fun hsilent hlimited =>
    hlimited.silent hsilent) (fun hhandles hlimited => hlimited.handles hhandles) h
  refine ⟨hlimited, fun packet hmem => ?_⟩
  rw [hpackets] at hmem
  obtain ⟨turn, hturn, rfl⟩ := List.mem_map.mp hmem
  obtain ⟨hin, hanswer⟩ := List.mem_filter.mp hturn
  exact hbounded turn hin hanswer

/-! ## Runs -/

theorem datagramQueue_handlePacket [FloatOps] [CongestionControl C] (session : SequenceSession C)
    (packet : Packet) (now : Instant) (systemMs jitter : Int) :
    (session.handlePacket packet now systemMs jitter).1.datagramQueue = session.datagramQueue := by
  have hcwnd : ∀ session : SequenceSession C,
      session.checkCwndChange.datagramQueue = session.datagramQueue := by
    intro session
    unfold checkCwndChange
    dsimp only
    split <;> rfl
  unfold handlePacket
  dsimp only
  rw [hcwnd]
  cases packet with
  | data id index total data =>
      have hside :=
        { session with lastActivity := now }.sendingSide_handleDataPacket id index total data now
      exact congrArg (fun side => side.datagramQueue) hside
  | ack ack =>
      simp only [handlePacketInternal, handleAckPacket]
      split
      next =>
        unfold acknowledge
        dsimp only
        split <;> rfl
      next => rfl
  | nack nack =>
      simp only [handlePacketInternal, handleNackPacket]
      split <;> rfl
  | ping t1 => rfl
  | pong t1 t2 t3 =>
      simp only [handlePacketInternal, handlePong]
      split <;> rfl
  | datagram messageType data => rfl

theorem datagramQueue_sendMessageAt (session : SequenceSession C) (messageType : MessageType)
    (data : Bytes) (now : Instant) :
    (session.sendMessageAt messageType data now).2.datagramQueue = session.datagramQueue := by
  unfold sendMessageAt
  dsimp only
  repeat' split
  all_goals rfl

theorem datagramQueue_cleanup (session : SequenceSession C) (now : Instant) :
    (session.cleanup now).datagramQueue = session.datagramQueue := by
  obtain ⟨size, quota, hreleased⟩ := exists_foldl_release
    (session.incoming.entries.filter fun entry => reassemblyExpired now entry.2) session
  simp only [cleanup, hreleased]
  set kept : SequenceSession C := { session with
    incomingBufferSize := size
    quota := quota
    incoming := session.incoming.retain fun _ reassembler => !reassemblyExpired now reassembler }
  obtain ⟨events, inFlight, scheduler, hfailed⟩ := exists_foldl_failMessage
    (kept.outgoing.entries.filter fun entry => outgoingExpired now entry.2) kept
  rw [hfailed]

theorem Limited.new (config : SessionConfig C) : (SequenceSession.new config).Limited :=
  ⟨nofun, nofun⟩

section Runs

variable [FloatOps] [CongestionControl C]

theorem Limited.step (h : session.Limited) (operation : Operation) :
    (session.step operation).Limited where
  messages := by
    have hupdates := session.step_updates operation
    have hmessages := h.messages
    generalize session.step operation = after at hupdates
    induction hupdates with
    | refl => exact hmessages
    | tail _ hlast ih =>
        exact hlast.everyMessage id .update (fun ack now hcut => hcut.onAck ack now _) ih
  datagrams := by
    have hkeep : ∀ {after : SequenceSession C}, after.datagramQueue = session.datagramQueue →
        ∀ entry ∈ after.datagramQueue, entry.2.length + 10 ≤ maxToxPacketSize :=
      fun hqueue => hqueue ▸ h.datagrams
    cases operation with
    | receive packet now systemMs jitter =>
        exact hkeep (session.datagramQueue_handlePacket packet now systemMs jitter)
    | call action =>
        cases action with
        | sendMessage messageType data now =>
            exact hkeep (session.datagramQueue_sendMessageAt messageType data now)
        | sendDatagram messageType data =>
            simp only [SequenceSession.step, Party.call, Party.withSession, sendDatagram]
            split
            next => exact h.datagrams
            next =>
              split
              next => exact h.datagrams
              next hfits =>
                intro entry hmem
                rcases List.mem_append.mp hmem with hold | hnew
                · exact h.datagrams entry hold
                · rw [List.mem_singleton.mp hnew]
                  exact Nat.not_lt.mp hfits
        | flush now nowMs answers => exact (h.flushPackets now nowMs answers).1.datagrams
        | cleanup now => exact hkeep (session.datagramQueue_cleanup now)
        | setMessageTimeout | pollEvent | setQuota | setUsedBytes | setMaxPerSession =>
            exact h.datagrams

/-- Replies are acknowledgements and pongs. -/
theorem bounded_of_mem_handlePacket {packet : Packet} {now : Instant} {systemMs jitter : Int}
    {reply : Packet} (hmem : reply ∈ (session.handlePacket packet now systemMs jitter).2) :
    reply.Bounded := by
  unfold handlePacket at hmem
  dsimp only at hmem
  cases packet with
  | data id index total data =>
      obtain ⟨-, -, houtcome⟩ :=
        { session with lastActivity := now }.handleDataPacket_outcome id index total data now
      obtain ⟨ack, rfl⟩ := houtcome.replies_ack reply hmem
      trivial
  | ping t1 =>
      rw [List.mem_singleton.mp hmem]
      trivial
  | ack | nack | pong | datagram => exact absurd hmem List.not_mem_nil

/-- Whatever was queued, received and refused before, every packet that a session hands to
the transport fits a custom packet. -/
theorem emitted_packets_fit (config : SessionConfig C) (operations : List Operation) :
    let session := runFrom SequenceSession.step (.new config) operations
    (∀ now nowMs answers, ∀ packet ∈ (session.flushPackets now nowMs answers).2,
      packet.FitsTransport) ∧
    ∀ packet now systemMs jitter,
      ∀ reply ∈ (session.handlePacket packet now systemMs jitter).2, reply.FitsTransport := by
  intro session
  have hlimited : session.Limited :=
    runFrom_invariant (fun session operation h => h.step operation) operations (.new config)
  constructor
  · intro now nowMs answers packet hmem
    exact ((hlimited.flushPackets now nowMs answers).2 packet hmem).fits
  · intro packet now systemMs jitter reply hmem
    exact (bounded_of_mem_handlePacket hmem).fits

end Runs

end SequenceSession

end MerkleTox.Sequenced
