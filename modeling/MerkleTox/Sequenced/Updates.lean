import Mathlib.Logic.Relation
import MerkleTox.Sequenced.InFlight

/-! # Updates of the sending side

The outgoing messages, the round-trip estimate and the count of delivered bytes change by a few
kinds of updates, one message at a time, and every operation of a session is a sequence of them.
What each update keeps therefore holds in every run.
-/

namespace MerkleTox.Sequenced

open Proto Library

variable {msg : OutgoingMessage} {f : OutgoingMessage → OutgoingMessage} {now : Instant}
  {stage : Stage}
variable {C : Type}

/-- The message that `handle_nack_packet` leaves behind. -/
def SequenceSession.NackWork.finish (work : SequenceSession.NackWork) : OutgoingMessage :=
  if work.needsCleanup then
    { work.msg with inFlightQueue :=
        work.msg.inFlightQueue.filter fun entry => !work.toRemove.get entry.1 }
  else work.msg

/-- The updates of a message other than by an acknowledgement, when so many bytes are
delivered. Without a message before, a new one is queued. -/
inductive OutgoingMessage.Update (delivered : Nat) :
    Option OutgoingMessage → OutgoingMessage → Prop
  | queued {messageType : MessageType} {payload : Bytes} {now : Instant} {msg : OutgoingMessage}
      (hsize : payload.length ≤ maxMessageSize)
      (hnew : OutgoingMessage.new messageType payload OutgoingMessage.defaultPayloadMtu now =
        .ok msg) :
      Update delivered none msg
  | retimed (msg : OutgoingMessage) (timeout : Duration) :
      Update delivered (some msg) { msg with timeout := timeout }
  | sent (msg : OutgoingMessage) (idx : Nat) (now lastDelivery : Instant) (appLimited : Bool) :
      Update delivered (some msg) (msg.markFragmentSent idx now delivered lastDelivery appLimited
        (msg.fragmentLen idx)).2
  | advanced (msg : OutgoingMessage) : Update delivered (some msg) (FlushState.advanceNext msg)
  | popped (msg : OutgoingMessage) : Update delivered (some msg) (FlushState.popRetransmit msg)
  | timedOut (msg : OutgoingMessage) (idx : Nat) :
      Update delivered (some msg) (FlushState.popInFlight idx msg)
  | nacked (msg : OutgoingMessage) (indices : List Nat) (inFlight : Nat) :
      Update delivered (some msg)
        (indices.foldl SequenceSession.nackIndex ⟨msg, inFlight, .new, false, false⟩).finish

namespace SequenceSession

/-- What the updates act on. -/
def sendingView (session : SequenceSession C) :=
  (session.outgoing, session.rtt, session.deliveredBytes)

variable [FloatOps] [CongestionControl C]

/-- One update of the sending side. -/
inductive SenderUpdate (session : SequenceSession C) : SequenceSession C → Prop
  | aside {after : SequenceSession C} (hview : after.sendingView = session.sendingView) :
      SenderUpdate session after
  | message {after : SequenceSession C} (id : MessageId) {msg : OutgoingMessage}
      (hupdate : OutgoingMessage.Update session.deliveredBytes (session.outgoing.get id) msg)
      (hview : after.sendingView =
        (session.outgoing.insert id msg, session.rtt, session.deliveredBytes)) :
      SenderUpdate session after
  | acked {after : SequenceSession C} {ack : SelectiveAck} {msg : OutgoingMessage} {now : Instant}
      (hget : session.outgoing.get ack.messageId = some msg)
      (hview : after.sendingView = (session.acknowledge ack msg now).sendingView) :
      SenderUpdate session after
  | sampled {after : SequenceSession C} (sample : Duration)
      (hview : after.sendingView =
        (session.outgoing, session.rtt.update sample, session.deliveredBytes)) :
      SenderUpdate session after
  | removed {after : SequenceSession C} (keep : MessageId → OutgoingMessage → Bool)
      (hview : after.sendingView =
        (session.outgoing.retain keep, session.rtt, session.deliveredBytes)) :
      SenderUpdate session after

/-- A sequence of updates. -/
abbrev SenderUpdates : SequenceSession C → SequenceSession C → Prop :=
  Relation.ReflTransGen SenderUpdate

variable {start session after : SequenceSession C}

theorem SenderUpdates.aside (h : start.SenderUpdates session)
    (hview : after.sendingView = session.sendingView) : start.SenderUpdates after :=
  h.tail (.aside hview)

theorem SenderUpdates.of_same (hview : after.sendingView = session.sendingView) :
    session.SenderUpdates after :=
  .single (.aside hview)

/-- An update of a message that is there. -/
theorem SenderUpdates.modify (h : start.SenderUpdates session) {id : MessageId}
    (hget : session.outgoing.get id = some msg)
    (hupdate : OutgoingMessage.Update session.deliveredBytes (some msg) (f msg))
    (hview : after.sendingView =
      (session.outgoing.modify id f, session.rtt, session.deliveredBytes)) :
    start.SenderUpdates after := by
  rw [AssocMap.modify_of_get hget] at hview
  exact h.tail (.message id (hget ▸ hupdate) hview)

end SequenceSession

/-! ### Flushing -/

namespace FlushState

open SequenceSession

variable [FloatOps] [CongestionControl C]
variable {start : SequenceSession C} {state : FlushState C}

omit [FloatOps] in
/-- What becomes of a message that was sent is an update. -/
theorem Picks.update {session : SequenceSession C} {idx : Nat}
    (hpicks : Picks session now msg stage idx f) (delivered : Nat) (marked : OutgoingMessage) :
    OutgoingMessage.Update delivered (some marked) (f marked) := by
  cases hpicks with
  | retransmitted => exact .popped marked
  | timedOut => exact .timedOut marked idx
  | fresh => exact .advanced marked
  | probed => exact .advanced marked
  | again => exact .retimed marked marked.timeout

theorem Move.updates {nowMs : Int} {after : FlushState C} (hmove : Move now nowMs state stage after)
    (h : start.SenderUpdates state.session) :
    start.SenderUpdates after.session := by
  have hoffered : ∀ {packet answer offered}, state.offer packet = (answer, offered) →
      start.SenderUpdates offered.session := fun heq => session_offer heq ▸ h
  cases hmove with
  | ping hoffer | datagram _ hoffer | lost _ hoffer => exact (hoffered hoffer).aside rfl
  | @fragment _ id msg idx f offered g hget _ hpicks hoffer hout hframe =>
      rw [session_update, session_offer hoffer]
      have hsent : start.SenderUpdates (fragmentSent state.session id msg idx now) := by
        refine h.tail (.message id ?_ rfl)
        rw [hget]
        exact .sent msg idx now _ _
      refine hsent.modify (AssocMap.get_insert_self _ _ _) (hpicks.update _ _) ?_
      have hkept := hframe (fragmentSent state.session id msg idx now)
      simp only [sendFrame, Prod.mk.injEq] at hkept
      simp only [sendingView, hout, hkept]
  | ack _ hoffer | nack _ _ hoffer => exact (hoffered hoffer).aside rfl
  | refused hoffer => exact hoffered hoffer
  | _ => exact h.aside rfl

theorem Moves.updates {nowMs : Int} {stages : List Stage} {after : FlushState C}
    (hmoves : Moves now nowMs stages state after) (h : start.SenderUpdates state.session) :
    start.SenderUpdates after.session :=
  hmoves.invariant (fun other => start.SenderUpdates other.session)
    (fun _ hmove h => hmove.updates h) h

theorem flushAll_updates (h : start.SenderUpdates state.session) (now : Instant) (nowMs : Int) :
    start.SenderUpdates (state.flushAll now nowMs).session := by
  obtain ⟨last, hmoves, heq⟩ := state.flushAll_moves now nowMs
  obtain ⟨appLimited, hlimited⟩ := detectAppLimited_eq last.session
  rw [heq, session_update, hlimited]
  exact (hmoves.updates h).aside rfl

end FlushState

/-! ### Runs -/

namespace SequenceSession

variable [FloatOps] [CongestionControl C] (session : SequenceSession C)

theorem sendMessageAt_updates (messageType : MessageType)
    (data : Bytes) (now : Instant) :
    session.SenderUpdates (session.sendMessageAt messageType data now).2 := by
  unfold sendMessageAt
  dsimp only
  split
  next => exact .refl
  next =>
    split
    next => exact .refl
    next hfree =>
      split
      next => exact .of_same rfl
      next hsize =>
        split
        next => exact .of_same rfl
        next =>
          split
          next => exact .of_same rfl
          next msg hnew =>
            rw [AssocMap.contains_eq, Bool.not_eq_true, Option.isSome_eq_false_iff,
              Option.isNone_iff_eq_none] at hfree
            refine .single (.message _ ?_ rfl)
            rw [hfree]
            exact .queued (Nat.not_lt.mp hsize) hnew

theorem cleanup_updates (now : Instant) :
    session.SenderUpdates (session.cleanup now) := by
  obtain ⟨size, quota, heq⟩ := exists_foldl_release
    (session.incoming.entries.filter fun entry => reassemblyExpired now entry.2) session
  refine .single (.removed (fun _ msg => !outgoingExpired now msg) ?_)
  simp only [cleanup, heq]
  set kept : SequenceSession C := { session with
    incomingBufferSize := size
    quota := quota
    incoming := session.incoming.retain fun _ reassembler => !reassemblyExpired now reassembler }
  obtain ⟨events, inFlight, scheduler, hfold⟩ := exists_foldl_failMessage
    (kept.outgoing.entries.filter fun entry => outgoingExpired now entry.2) kept
  rw [hfold]
  rfl

theorem handlePacket_updates (packet : Packet) (now : Instant)
    (systemMs jitter : Int) :
    session.SenderUpdates (session.handlePacket packet now systemMs jitter).1 := by
  set touched : SequenceSession C := { session with lastActivity := now } with htouched
  have hstart : session.SenderUpdates touched := .of_same rfl
  -- The congestion window is looked at last and is not among what the sender reads.
  suffices hinternal : session.SenderUpdates
      (touched.handlePacketInternal packet now systemMs jitter).1 by
    refine hinternal.aside ?_
    unfold handlePacket checkCwndChange
    dsimp only
    split <;> rfl
  cases packet with
  | data id index total data =>
      have hview := touched.senderView_handleDataPacket id index total data now
      simp only [senderView, Prod.mk.injEq] at hview
      refine hstart.aside ?_
      simp only [handlePacketInternal, sendingView, hview]
  | ack ack =>
      simp only [handlePacketInternal, handleAckPacket]
      split
      next msg hget =>
        set windowed : SequenceSession C := { touched with
          zeroWindowProbesSent :=
            if estimatedPayloadSize ≤ ack.rwnd * estimatedPayloadSize then 0
            else touched.zeroWindowProbesSent
          peerRwnd := ack.rwnd * estimatedPayloadSize }
        have hwindowed : session.SenderUpdates windowed := hstart.aside rfl
        exact hwindowed.tail (.acked hget rfl)
      next => exact hstart.aside rfl
  | nack nack =>
      simp only [handlePacketInternal, handleNackPacket]
      split
      next => exact hstart
      next msg hget =>
        refine hstart.tail (.message nack.messageId ?_ rfl)
        rw [hget]
        exact .nacked msg nack.missingIndices touched.inFlight
  | ping t1 => exact hstart
  | pong t1 t2 t3 =>
      simp only [handlePacketInternal, handlePong]
      split
      next => exact hstart
      next sentTime hsent => exact hstart.tail (.sampled (durationSince now sentTime) rfl)
  | datagram messageType data => exact hstart.aside rfl

/-- Every operation is a sequence of updates. -/
theorem step_updates (operation : Operation) :
    session.SenderUpdates (session.step operation) := by
  cases operation with
  | receive packet now systemMs jitter =>
    exact session.handlePacket_updates packet now systemMs jitter
  | call action =>
      cases action with
      | sendMessage messageType data now => exact session.sendMessageAt_updates messageType data now
      | setMessageTimeout id timeout =>
          cases hget : session.outgoing.get id with
          | none =>
              refine .of_same ?_
              simp only [step, Party.call, Party.withSession, setMessageTimeout, sendingView,
                AssocMap.modify_of_get_none hget]
          | some msg =>
              have hupdate : OutgoingMessage.Update session.deliveredBytes (some msg)
                  { msg with timeout := timeout } := .retimed msg timeout
              refine .single (.message id (hget ▸ hupdate) ?_)
              simp only [step, Party.call, Party.withSession, setMessageTimeout, sendingView,
                AssocMap.modify_of_get hget]
      | sendDatagram messageType data =>
          refine .of_same ?_
          simp only [step, Party.call, Party.withSession, sendDatagram]
          split
          next => rfl
          next => split <;> rfl
      | flush now nowMs answers =>
          have hstart : session.SenderUpdates (⟨session, answers, []⟩ : FlushState C).session :=
            .refl
          simp only [step, Party.call, Party.withSession, flushPackets]
          exact FlushState.flushAll_updates hstart now nowMs
      | cleanup now =>
          simp only [step, Party.call, Party.withSession]
          exact session.cleanup_updates now
      | pollEvent | setQuota quota | setUsedBytes usedBytes
      | setMaxPerSession maxPerSession => exact .of_same rfl

/-- What every update keeps holds at the end of every run. -/
theorem runFrom_of_updates {inv : SequenceSession C → Prop}
    (hupdate : ∀ {session after : SequenceSession C}, session.SenderUpdate after → inv session →
      inv after)
    (config : SessionConfig C) (operations : List Operation) (hnew : inv (.new config)) :
    inv (runFrom step (.new config) operations) := by
  refine runFrom_invariant (fun session operation hinv => ?_) operations hnew
  have hupdates := session.step_updates operation
  generalize session.step operation = after at hupdates
  induction hupdates with
  | refl => exact hinv
  | tail _ hlast ih => exact hupdate hlast ih

/-- Every outgoing message has a property that may depend on the delivered bytes. -/
def EveryMessage (holds : Nat → OutgoingMessage → Prop) (session : SequenceSession C) : Prop :=
  ∀ id msg, session.outgoing.get id = some msg → holds session.deliveredBytes msg

/-- An update keeps a property of the messages that the updates of a message keep, the
acknowledgements included, and that more delivered bytes do not end. -/
theorem SenderUpdate.everyMessage {session after : SequenceSession C}
    {holds : Nat → OutgoingMessage → Prop}
    (hmono : ∀ {delivered more msg}, holds delivered msg → holds (delivered + more) msg)
    (hupdate : ∀ {delivered before msg}, OutgoingMessage.Update delivered before msg →
      (∀ old ∈ before, holds delivered old) → holds delivered msg)
    (hacked : ∀ {delivered msg} (ack : SelectiveAck) (now : Instant), holds delivered msg →
      let outcome := msg.onAck ack.baseIndex ack.bitmask now delivered
      holds (delivered + outcome.1.newlyDeliveredBytes) outcome.2)
    (h : session.SenderUpdate after) (hmessages : session.EveryMessage holds) :
    after.EveryMessage holds := by
  -- One message changes at most; an acknowledgement moves the count of delivered bytes too, to
  -- which the others are indifferent.
  unfold EveryMessage at hmessages ⊢
  cases h with
  | aside hview =>
      simp only [sendingView, Prod.mk.injEq] at hview
      rwa [hview.1, hview.2.2]
  | @message id msg hmsg hview =>
      simp only [sendingView, Prod.mk.injEq] at hview
      rw [hview.1, hview.2.2]
      exact AssocMap.forall_insert hmessages (hupdate hmsg fun old hold => hmessages id old hold)
  | @acked ack msg now hget hview =>
      have hafter := hacked ack now (hmessages _ _ hget)
      unfold acknowledge at hview
      dsimp only at hview hafter
      split at hview
      all_goals
        simp only [sendingView, pushEvent, Prod.mk.injEq] at hview
        rw [hview.1, hview.2.2]
      · exact AssocMap.forall_retain (AssocMap.forall_insert (fun id msg hold => hmono (hmessages id msg hold)) hafter)
      · exact AssocMap.forall_insert (fun id msg hold => hmono (hmessages id msg hold)) hafter
  | sampled sample hview =>
      simp only [sendingView, Prod.mk.injEq] at hview
      rwa [hview.1, hview.2.2]
  | removed keep hview =>
      simp only [sendingView, Prod.mk.injEq] at hview
      rw [hview.1, hview.2.2]
      exact AssocMap.forall_retain hmessages

end SequenceSession

end MerkleTox.Sequenced
