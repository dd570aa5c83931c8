import MerkleTox.Sequenced.Settlement
import MerkleTox.Sequenced.Transmission

/-! # Bytes in flight

One session and an arbitrary peer: its owner makes any calls, and it handles any
packets. The counter of bytes in flight is the sum over the fragments that were sent and
are neither acknowledged nor given up for lost, as long as no zero-window probe sends a
fragment that the peer has acknowledged before it was sent.
-/

namespace MerkleTox.Sequenced

open Proto Library

variable {C : Type}

/-- A call of the owner, or a packet from anyone. -/
inductive Operation
  | call (action : Action)
  | receive (packet : Packet) (now : Instant) (systemMs jitter : Int)

namespace SequenceSession

def step [FloatOps] [CongestionControl C] (session : SequenceSession C) :
    Operation → SequenceSession C
  | .call action => ((⟨session, [], []⟩ : Party C).call action).1.session
  | .receive packet now systemMs jitter => (session.handlePacket packet now systemMs jitter).1

/-! ### Frames -/

section Frames

/-- The session but for what incoming fragments change. -/
def sendingSide (session : SequenceSession C) : SequenceSession C :=
  { session with
    incoming := .empty
    quota := .new 0
    incomingBufferSize := 0
    completedIncoming := .empty
    pendingAcks := .empty
    pendingNacks := .empty
    events := []
    highestReceivedId := none }

/-- What the account of the bytes in flight is about. -/
def senderView (session : SequenceSession C) :=
  (session.outgoing, session.inFlight, session.rtt, session.deliveredBytes)

theorem sendingSide_adjustReservation {session after : SequenceSession C}
    {entry adjusted : MessageReassembler}
    (h : session.adjustReservation entry = some (after, adjusted)) :
    after.sendingSide = session.sendingSide := by
  unfold adjustReservation at h
  dsimp only at h
  split at h
  next =>
    split at h
    · cases h
    · cases h
      rfl
  next =>
    cases h
    rfl

variable (session : SequenceSession C)

theorem sendingSide_completeMessage (id : MessageId)
    (entry : MessageReassembler) (now : Instant) :
    (session.completeMessage id entry now).sendingSide = session.sendingSide := by
  unfold completeMessage
  dsimp only
  split
  next => rfl
  next => split <;> rfl

section

variable (id : MessageId) (index total : Nat) (data : Bytes) (now : Instant)

/-- Fragments that come in do not change what is sent. -/
theorem sendingSide_handleDataPacket :
    (session.handleDataPacket id index total data now).1.sendingSide = session.sendingSide := by
  -- Data packets belong to the receiving side: each stage leaves what the sender reads.
  have hensure : ∀ messageType, (session.ensureReassembler id messageType total data.length
      now).2.1.sendingSide = session.sendingSide := by
    intro messageType
    simp only [ensureReassembler]
    split
    next => rfl
    next =>
      split
      next => rfl
      next =>
        split
        next => rfl
        next => split <;> rfl
  have hprocess : ∀ held : SequenceSession C,
      (held.processFragment id index data now).1.sendingSide = held.sendingSide := by
    intro held
    simp only [processFragment]
    split
    next => rfl
    next =>
      split
      next => rfl
      next entry hadd =>
        simp only [fragmentAdded]
        split
        next => rfl
        next adjusted entry' hadjust =>
          have hsame := sendingSide_adjustReservation hadjust
          split
          next => exact (sendingSide_completeMessage _ _ _ _).trans hsame
          next => exact hsame
  unfold handleDataPacket
  split
  next => rfl
  next =>
    split
    next => rfl
    next =>
      have hsame := hensure (peekedType index data)
      split
      next refused replies heq =>
        rw [heq] at hsame
        exact hsame
      next held replies heq =>
        rw [heq] at hsame
        exact (hprocess held).trans hsame

theorem senderView_handleDataPacket :
    (session.handleDataPacket id index total data now).1.senderView = session.senderView := by
  have hside := session.sendingSide_handleDataPacket id index total data now
  have hview : ∀ session : SequenceSession C, session.senderView = session.sendingSide.senderView :=
    fun _ => rfl
  rw [hview, hside, ← hview]

theorem inFlight_handleDataPacket :
    (session.handleDataPacket id index total data now).1.inFlight = session.inFlight :=
  congrArg (fun view => view.2.1) (session.senderView_handleDataPacket id index total data now)

end

end Frames

/-! ### What an operation does to the outgoing messages -/

section Moves

variable {session session' : SequenceSession C} {operation : Operation}

/-- Everything an operation can do to the outgoing messages and to the bytes in flight. -/
inductive SenderMove (session : SequenceSession C) :
    Operation → SequenceSession C → Prop
  | unchanged {operation : Operation} {session' : SequenceSession C}
      (hout : session'.outgoing = session.outgoing)
      (hinFlight : session'.inFlight = session.inFlight) : SenderMove session operation session'
  | queued {operation : Operation} {session' : SequenceSession C} {id : MessageId}
      {messageType : MessageType} {payload : Bytes} {mtu : Nat} {now : Instant}
      {msg : OutgoingMessage} (habsent : session.outgoing.get id = none)
      (hnew : OutgoingMessage.new messageType payload mtu now = .ok msg)
      (hout : session'.outgoing = session.outgoing.insert id msg)
      (hinFlight : session'.inFlight = session.inFlight) : SenderMove session operation session'
  | retimed {operation : Operation} {session' : SequenceSession C} {id : MessageId}
      {timeout : Duration}
      (hout : session'.outgoing =
        session.outgoing.modify id fun msg => { msg with timeout := timeout })
      (hinFlight : session'.inFlight = session.inFlight) : SenderMove session operation session'
  | transmitted {now : Instant} {nowMs : Int} {answers : List Bool}
      {session' : SequenceSession C}
      (htransmits : ∀ careful : Prop, (careful → session.probesAcked now = false) →
        Transmits careful session session') :
      SenderMove session (.call (.flush now nowMs answers)) session'
  | acked {ack : SelectiveAck} {now : Instant} {systemMs jitter : Int}
      {session' : SequenceSession C} {msg after : OutgoingMessage} {freed : Nat}
      (hget : session.outgoing.get ack.messageId = some msg)
      (hsettles : msg.Settles after (fun _ => False) freed)
      (hacked : ∀ idx, after.isAcked idx = (msg.isAcked idx ||
        decide (idx ∈ (msg.collectAckedIndices ack.baseIndex ack.bitmask).1)))
      (hout : session'.outgoing = if after.allAcked then
          (session.outgoing.insert ack.messageId after).erase ack.messageId
        else session.outgoing.insert ack.messageId after)
      (hinFlight : session'.inFlight = session.inFlight - freed) :
      SenderMove session (.receive (.ack ack) now systemMs jitter) session'
  | nacked {nack : Nack} {now : Instant} {systemMs jitter : Int}
      {session' : SequenceSession C} {msg after : OutgoingMessage} {freed : Nat}
      (hget : session.outgoing.get nack.messageId = some msg)
      (hsettles : msg.Settles after (· ∈ nack.missingIndices) freed)
      (hview : after.ackView = msg.ackView)
      (hasked : ∀ idx ∈ nack.missingIndices, msg.isAcked idx = false →
        idx ∈ after.retransmitQueue)
      (hout : session'.outgoing = session.outgoing.insert nack.messageId after)
      (hinFlight : ∀ others, session.inFlight = others + msg.flight →
        session'.inFlight = others + after.flight) :
      SenderMove session (.receive (.nack nack) now systemMs jitter) session'
  | cleaned {now : Instant} {session' : SequenceSession C}
      (hout : session'.outgoing = session.outgoing.retain fun _ msg => !outgoingExpired now msg)
      (hinFlight : session'.inFlight = session.inFlight -
        ((session.outgoing.entries.filter fun entry => outgoingExpired now entry.2).map
          fun entry => entry.2.flight).sum) :
      SenderMove session (.call (.cleanup now)) session'

theorem SenderMove.of_same (h : SenderMove session operation session')
    {other : SequenceSession C} (hout : other.outgoing = session'.outgoing)
    (hinFlight : other.inFlight = session'.inFlight) : SenderMove session operation other := by
  cases h with
  | unchanged hout' hinFlight' => exact .unchanged (hout.trans hout') (hinFlight.trans hinFlight')
  | queued habsent hnew hout' hinFlight' =>
      exact .queued habsent hnew (hout.trans hout') (hinFlight.trans hinFlight')
  | retimed hout' hinFlight' => exact .retimed (hout.trans hout') (hinFlight.trans hinFlight')
  | transmitted htransmits =>
      exact .transmitted fun careful hcareful =>
        (htransmits careful hcareful).of_same hout hinFlight
  | acked hget hsettles hacked hout' hinFlight' =>
      exact .acked hget hsettles hacked (hout.trans hout') (hinFlight.trans hinFlight')
  | nacked hget hsettles hview hasked hout' hinFlight' =>
      exact .nacked hget hsettles hview hasked (hout.trans hout') fun others hbytes =>
        hinFlight.trans (hinFlight' others hbytes)
  | cleaned hout' hinFlight' => exact .cleaned (hout.trans hout') (hinFlight.trans hinFlight')

theorem sendMessageAt_move (session : SequenceSession C) (messageType : MessageType)
    (data : Bytes) (now : Instant) :
    SenderMove session (.call (.sendMessage messageType data now))
      (session.sendMessageAt messageType data now).2 := by
  unfold sendMessageAt
  dsimp only
  split
  next => exact .unchanged rfl rfl
  next =>
    split
    next => exact .unchanged rfl rfl
    next hfree =>
      have habsent : session.outgoing.get
          (freeId session.outgoing maxConcurrentOutgoing session.nextMessageId) = none := by
        rw [AssocMap.contains_eq, Bool.not_eq_true, Option.isSome_eq_false_iff,
          Option.isNone_iff_eq_none] at hfree
        exact hfree
      split
      next => exact .unchanged rfl rfl
      next =>
        split
        next => exact .unchanged rfl rfl
        next =>
          split
          next => exact .unchanged rfl rfl
          next msg hnew => exact .queued habsent hnew rfl rfl

/-- Giving up a message takes its bytes in flight off the counter. -/
theorem failMessage_inFlight (session : SequenceSession C) {entry : MessageId × OutgoingMessage}
    (h : entry.2.Tracked) :
    (session.failMessage entry).inFlight = session.inFlight - entry.2.flight := by
  have hfold : ∀ (count start : Nat), (List.range count).foldl
      (fun inFlight idx => if (entry.2.fragmentState idx).lastSent.isSome then
        inFlight - entry.2.fragmentLen idx else inFlight) start =
      start - ∑ idx ∈ Finset.range count,
        if entry.2.isInFlight idx then entry.2.fragmentLen idx else 0 := by
    intro count
    induction count with
    | zero => simp
    | succ count ih =>
        intro start
        rw [List.range_succ, List.foldl_append, ih, Finset.sum_range_succ, ← Nat.sub_sub]
        cases hflight : (entry.2.fragmentState count).lastSent.isSome with
        | true | false => simp [OutgoingMessage.isInFlight, hflight]
  unfold failMessage
  simp only [pushEvent]
  rw [hfold, h.states]
  rfl

theorem cleanup_move (session : SequenceSession C) (h : session.AllTracked) (now : Instant) :
    SenderMove session (.call (.cleanup now)) (session.cleanup now) := by
  have hfailed : ∀ (failed : List (MessageId × OutgoingMessage)) (start : SequenceSession C),
      (∀ entry ∈ failed, entry.2.Tracked) →
      (failed.foldl failMessage start).outgoing = start.outgoing ∧
        (failed.foldl failMessage start).inFlight =
          start.inFlight - (failed.map fun entry => entry.2.flight).sum := by
    intro failed
    induction failed with
    | nil => exact fun start _ => ⟨rfl, rfl⟩
    | cons entry rest ih =>
        intro start htracked
        obtain ⟨hout, hinFlight⟩ := ih (start.failMessage entry)
          fun other hother => htracked other (List.mem_cons_of_mem _ hother)
        rw [failMessage_inFlight start (htracked entry List.mem_cons_self), Nat.sub_sub]
          at hinFlight
        exact ⟨hout, hinFlight⟩
  obtain ⟨size, quota, heq⟩ := exists_foldl_release
    (session.incoming.entries.filter fun entry => reassemblyExpired now entry.2) session
  unfold cleanup
  simp only [heq]
  generalize hstart : ({ session with
    incomingBufferSize := size
    quota := quota
    incoming := session.incoming.retain fun _ reassembler => !reassemblyExpired now reassembler } :
      SequenceSession C) = start
  obtain ⟨hsame, hinFlight⟩ := hfailed
    (session.outgoing.entries.filter fun entry => outgoingExpired now entry.2) start
    fun entry hentry => h entry.1 entry.2
      (AssocMap.get_eq_some_iff.mpr (List.mem_filter.mp hentry).1)
  subst hstart
  refine .cleaned ?_ hinFlight
  dsimp only
  rw [hsame]

variable [FloatOps] [CongestionControl C]

section

variable (session : SequenceSession C) (h : session.AllTracked)
include h

theorem handleAckPacket_move (ack : SelectiveAck) (now : Instant) (systemMs jitter : Int) :
    SenderMove session (.receive (.ack ack) now systemMs jitter)
      ({ session with lastActivity := now }.handleAckPacket ack now) := by
  unfold handleAckPacket
  dsimp only
  split
  next msg hget =>
    obtain ⟨hsettles, hacked⟩ := OutgoingMessage.onAck_settles (h ack.messageId msg hget)
      ack.baseIndex ack.bitmask now session.deliveredBytes
    refine .acked hget hsettles hacked ?_ ?_
    · unfold acknowledge
      dsimp only
      split <;> rfl
    · unfold acknowledge
      dsimp only
      split <;> rfl
  next => exact .unchanged rfl rfl

theorem handlePacket_move (packet : Packet) (now : Instant) (systemMs jitter : Int) :
    SenderMove session (.receive packet now systemMs jitter)
      (session.handlePacket packet now systemMs jitter).1 := by
  set touched : SequenceSession C := { session with lastActivity := now } with htouched
  suffices hmove : SenderMove session (.receive packet now systemMs jitter)
      (touched.handlePacketInternal packet now systemMs jitter).1 by
    refine hmove.of_same (checkCwndChange_spec _).1 ?_
    unfold handlePacket checkCwndChange
    dsimp only
    split <;> rfl
  cases packet with
  | data id index total data =>
      exact .unchanged (handleDataPacket_outcome touched id index total data now).1
        (inFlight_handleDataPacket touched id index total data now)
  | ack ack => exact session.handleAckPacket_move h ack now systemMs jitter
  | nack nack =>
      cases hget : session.outgoing.get nack.messageId with
      | none =>
          have hsame : touched.handleNackPacket nack now = touched := by
            unfold handleNackPacket
            rw [show touched.outgoing.get nack.messageId = none from hget]
          have hsame' : (touched.handlePacketInternal (.nack nack) now systemMs jitter).1 =
              touched := hsame
          rw [hsame']
          exact .unchanged rfl rfl
      | some msg =>
          obtain ⟨after, freed, hsettles, hview, hasked, hout, hinFlight⟩ :=
            touched.handleNackPacket_settles nack now hget (h nack.messageId msg hget)
          exact .nacked hget hsettles hview hasked hout hinFlight
  | ping t1 => exact .unchanged rfl rfl
  | pong t1 t2 t3 =>
      simp only [handlePacketInternal, handlePong]
      split <;> exact .unchanged rfl rfl
  | datagram messageType data => exact .unchanged rfl rfl

/-- Every operation of a session is one of the moves. -/
theorem step_move (operation : Operation) :
    SenderMove session operation (session.step operation) := by
  cases operation with
  | receive packet now systemMs jitter =>
      exact session.handlePacket_move h packet now systemMs jitter
  | call action =>
      cases action with
      | sendMessage messageType data now => exact session.sendMessageAt_move messageType data now
      | setMessageTimeout messageId timeout => exact .retimed rfl rfl
      | sendDatagram messageType data =>
          simp only [step, Party.call, Party.withSession, sendDatagram]
          split
          next => exact .unchanged rfl rfl
          next => split <;> exact .unchanged rfl rfl
      | flush now nowMs answers =>
          refine .transmitted fun careful hcareful => ?_
          simp only [step, Party.call, Party.withSession, flushPackets]
          have hstart : (⟨session, answers, []⟩ : FlushState C).session.AllTracked := h
          exact FlushState.transmits_flushAll hstart now nowMs hcareful
      | cleanup now =>
          simp only [step, Party.call, Party.withSession]
          exact session.cleanup_move h now
      | pollEvent | setQuota quota | setUsedBytes usedBytes
      | setMaxPerSession maxPerSession => exact .unchanged rfl rfl

end

end Moves

/-! ### Invariants of single messages -/

/-- A property of messages that fragments sent, acknowledged and asked for leave alone
holds of all outgoing messages after an operation. The fragments are sent carefully if
the operation is no flush with a zero-window probe of an acknowledged fragment. -/
theorem SenderMove.forall_messages {session session' : SequenceSession C}
    {operation : Operation} (hmove : SenderMove session operation session')
    {holds : OutgoingMessage → Prop} {careful : Prop}
    (hcareful : ∀ now nowMs answers, operation = .call (.flush now nowMs answers) → careful →
      session.probesAcked now = false)
    (hnew : ∀ messageType payload mtu now msg,
      OutgoingMessage.new messageType payload mtu now = .ok msg → holds msg)
    (hretimed : ∀ msg timeout, holds msg → holds { msg with timeout := timeout })
    (hsends : ∀ msg idx after, holds msg → msg.Sends careful idx after → holds after)
    (hacked : ∀ ack now systemMs jitter msg after freed,
      operation = .receive (.ack ack) now systemMs jitter →
      session.outgoing.get ack.messageId = some msg → holds msg →
      msg.Settles after (fun _ => False) freed →
      (∀ idx, after.isAcked idx = (msg.isAcked idx ||
        decide (idx ∈ (msg.collectAckedIndices ack.baseIndex ack.bitmask).1))) → holds after)
    (hnacked : ∀ nack now systemMs jitter msg after freed,
      operation = .receive (.nack nack) now systemMs jitter →
      session.outgoing.get nack.messageId = some msg → holds msg →
      msg.Settles after (· ∈ nack.missingIndices) freed → after.ackView = msg.ackView →
      (∀ idx ∈ nack.missingIndices, msg.isAcked idx = false → idx ∈ after.retransmitQueue) →
      holds after)
    (h : ∀ id msg, session.outgoing.get id = some msg → holds msg) :
    ∀ id msg, session'.outgoing.get id = some msg → holds msg := by
  -- Each move rewrites one entry of the map or drops some; the entry it writes satisfies the
  -- predicate by the hypothesis on that move.
  cases hmove with
  | unchanged hout hinFlight => rwa [hout]
  | queued habsent hmsg hout hinFlight =>
      rw [hout]
      exact AssocMap.forall_insert h (hnew _ _ _ _ _ hmsg)
  | @retimed _ _ key timeout hout hinFlight =>
      intro id msg hget
      rw [hout] at hget
      by_cases heq : id = key
      · subst heq
        rw [AssocMap.get_modify_self, Option.map_eq_some_iff] at hget
        obtain ⟨old, hold, rfl⟩ := hget
        exact hretimed old timeout (h id old hold)
      · rw [AssocMap.get_modify_of_ne _ _ heq] at hget
        exact h id msg hget
  | transmitted htransmits =>
      have hsent := htransmits careful (hcareful _ _ _ rfl)
      clear htransmits
      -- A flush sends one fragment after the other.
      induction hsent with
      | unchanged hout _ => rwa [hout]
      | sends _ hget hsend hout _ ih =>
          rw [hout]
          exact AssocMap.forall_insert ih (hsends _ _ _ (ih _ _ hget) hsend)
  | acked hget hsettles hnamed hout hinFlight =>
      have hafter := hacked _ _ _ _ _ _ _ rfl hget (h _ _ hget) hsettles hnamed
      rw [hout]
      split
      next => exact AssocMap.forall_retain (AssocMap.forall_insert h hafter)
      next => exact AssocMap.forall_insert h hafter
  | nacked hget hsettles hview hasked hout hinFlight =>
      rw [hout]
      exact AssocMap.forall_insert h (hnacked _ _ _ _ _ _ _ rfl hget (h _ _ hget) hsettles hview hasked)
  | cleaned hout hinFlight =>
      rw [hout]
      exact AssocMap.forall_retain h

end SequenceSession

namespace OutgoingMessage

variable {msg : OutgoingMessage}

/-- A new message has no fragment in flight, acknowledged or asked for. -/
theorem new_fresh {messageType : MessageType} {data : Bytes} {mtu : Nat} {now : Instant}
    (hnew : new messageType data mtu now = .ok msg) :
    msg.Tracked ∧ msg.nextFragment = 0 ∧ (∀ idx, msg.isInFlight idx = false) ∧
      ∀ idx < msg.numFragments, msg.Fresh idx := by
  obtain ⟨-, hcounted, hunacked⟩ := new_spec hnew
  have hstates : ∀ idx, msg.isInFlight idx = false ∧
      (msg.fragmentState idx).deliveryInfo.isSome = false := by
    intro idx
    simp only [new] at hnew
    split at hnew
    next => cases hnew
    next =>
      cases hnew
      simp only [isInFlight, fragmentState, List.getElem?_replicate]
      split <;> exact ⟨rfl, rfl⟩
  simp only [new] at hnew
  split at hnew
  next => cases hnew
  next =>
    cases hnew
    refine ⟨?_, rfl, fun idx => (hstates idx).1, ?_⟩
    · exact
        { counted := hcounted
          states := List.length_replicate
          queued := fun idx hflight => absurd ((hstates idx).1.symm.trans hflight) (by decide)
          flying := fun _ hmem => by cases hmem
          noted := fun idx hflight => absurd ((hstates idx).1.symm.trans hflight) (by decide)
          unacked := fun _ hmem => by cases hmem
          marked := fun idx hmarked => by simp at hmarked
          waiting := fun idx _ hnoted => absurd ((hstates idx).2.symm.trans hnoted) (by decide) }
    · intro idx hlt
      exact ⟨isAcked_eq_false.mpr ⟨hlt, hunacked idx⟩, (hstates idx).2, by rintro ⟨⟩⟩

theorem Tracked.retimed (h : msg.Tracked) (timeout : Duration) :
    { msg with timeout := timeout }.Tracked :=
  { counted := h.counted.of_ackView_eq rfl
    states := h.states
    queued := h.queued
    flying := h.flying
    noted := h.noted
    unacked := h.unacked
    marked := h.marked
    waiting := h.waiting }

/-- Nothing that is acknowledged is in flight. -/
def Landed (msg : OutgoingMessage) : Prop :=
  ∀ idx, msg.isAcked idx = true → msg.isInFlight idx = false

/-- The bytes of the fragments that are in flight and not acknowledged. -/
def unackedFlight (msg : OutgoingMessage) : Nat :=
  ∑ idx ∈ Finset.range msg.numFragments,
    if msg.isInFlight idx && !msg.isAcked idx then msg.fragmentLen idx else 0

theorem flight_eq_unackedFlight (h : msg.Landed) : msg.flight = msg.unackedFlight := by
  refine Finset.sum_congr rfl fun idx _ => ?_
  cases hacked : msg.isAcked idx with
  | true => simp [h idx hacked]
  | false => simp

theorem flight_eq_zero (h : ∀ idx, msg.isInFlight idx = false) : msg.flight = 0 := by
  simp [flight, h]

/-- A completely acknowledged message has nothing in flight. -/
theorem Landed.flight_of_allAcked (h : msg.Landed) (hcounted : msg.AcksCounted)
    (hall : msg.allAcked = true) : msg.flight = 0 := by
  refine flight_eq_zero fun idx => h idx ?_
  by_contra hunacked
  rw [Bool.not_eq_true, isAcked_eq_false] at hunacked
  rw [hcounted.all_acked hall idx hunacked.1] at hunacked
  exact absurd hunacked.2 nofun

theorem Landed.sends {msg after : OutgoingMessage} {idx : Nat} (h : msg.Landed)
    (htracked : msg.Tracked) (hsends : msg.Sends True idx after) : after.Landed := by
  intro other hacked
  rw [isAcked_congr hsends.ackView] at hacked
  rw [(hsends.states htracked other).1]
  split
  next heq =>
    -- a fragment that is sent is not acknowledged
    subst heq
    have hunacked : msg.isInFlight other = true ∨ msg.isAcked other = false := by
      cases hsends with
      | again hsent hknown => exact hknown.imp_right (htracked.unacked other)
      | retransmitted hsent hqueue =>
          exact .inr (htracked.unacked other (hqueue ▸ List.mem_cons_self))
      | timedOut hsent hqueue => exact .inl (htracked.flying _ (hqueue ▸ List.mem_cons_self))
      | advanced hsent hnext hlt hunacked => exact .inr (hunacked trivial)
    rw [h other hacked, hacked] at hunacked
    simp at hunacked
  next => exact h other hacked

theorem Landed.settles {msg after : OutgoingMessage} {asked : Nat → Prop} {freed : Nat}
    (h : msg.Landed) (hsettles : msg.Settles after asked freed) : after.Landed := by
  intro idx hacked
  rcases hsettles.idle idx hacked with hbefore | hidle
  · by_contra hflight
    rw [Bool.not_eq_false] at hflight
    exact absurd ((h idx hbefore).symm.trans (hsettles.landed idx hflight)) nofun
  · exact hidle

end OutgoingMessage

namespace SequenceSession

/-- The counter of bytes in flight is right, and nothing acknowledged is in flight. -/
structure Accounted (session : SequenceSession C) : Prop where
  messages : ∀ id msg, session.outgoing.get id = some msg → msg.Tracked ∧ msg.Landed
  inFlight : session.inFlight = session.outgoing.total fun _ msg => msg.flight

/-- The step is no flush with a zero-window probe of an acknowledged fragment. -/
def ProbesUnacked (session : SequenceSession C) : Operation → Prop
  | .call (.flush now _ _) => session.probesAcked now = false
  | _ => True

section Accounting

variable {outgoing : FlatMap MessageId OutgoingMessage} {id : MessageId}
  {msg after : OutgoingMessage}

/-- Replacing a message replaces its bytes in flight. -/
theorem flight_insert (hget : outgoing.get id = some msg) :
    ∃ others, outgoing.total (fun _ msg => msg.flight) = others + msg.flight ∧
      ∀ after, (outgoing.insert id after).total (fun _ msg => msg.flight) =
        others + after.flight := by
  have hweight := AssocMap.weightAt_of_get (fun _ (msg : OutgoingMessage) => msg.flight) hget
  have herase := AssocMap.total_erase outgoing (fun _ msg => msg.flight) id
  refine ⟨(outgoing.erase id).total fun _ msg => msg.flight, by omega, fun after => ?_⟩
  have hinsert := AssocMap.total_insert outgoing (fun _ msg => msg.flight) id after
  omega

theorem Transmits.inFlight {careful : Prop} {start session : SequenceSession C}
    (h : Transmits careful start session) (htracked : start.AllTracked)
    (hstart : start.inFlight = start.outgoing.total fun _ msg => msg.flight) :
    session.inFlight = session.outgoing.total fun _ msg => msg.flight := by
  induction h with
  | unchanged hout hinFlight => rw [hout, hinFlight, hstart]
  | @sends middle session id msg after idx hprevious hget hsends hout hinFlight ih =>
      have hmsg : msg.Tracked := hprevious.tracked htracked id msg hget
      have hflight := hsends.flight hmsg
      obtain ⟨others, htotal, hafter⟩ := flight_insert hget
      rw [hinFlight, hout, hafter, ih, htotal]
      split at hflight
      next hagain =>
        rw [if_pos hagain]
        have hpart : msg.fragmentLen idx ≤ msg.flight := by
          have hmem := Finset.mem_range.mpr (hmsg.lt_of_isInFlight hagain)
          unfold OutgoingMessage.flight
          rw [← Finset.add_sum_erase _ _ hmem, if_pos hagain]
          exact Nat.le_add_right _ _
        omega
      next hnew =>
        rw [if_neg hnew]
        omega

end Accounting

theorem Accounted.new (config : SessionConfig C) : (SequenceSession.new config).Accounted :=
  ⟨nofun, rfl⟩

variable [FloatOps] [CongestionControl C]

theorem Accounted.step {session : SequenceSession C} (h : session.Accounted)
    {operation : Operation} (hok : session.ProbesUnacked operation) :
    (session.step operation).Accounted := by
  have htracked : session.AllTracked := fun id msg hget => (h.messages id msg hget).1
  have hmove := session.step_move htracked operation
  have hcareful : ∀ now nowMs answers, operation = .call (.flush now nowMs answers) → True →
      session.probesAcked now = false := by
    rintro now nowMs answers rfl -
    exact hok
  refine ⟨hmove.forall_messages hcareful ?_ ?_ ?_ ?_ ?_ h.messages, ?_⟩
  · intro messageType payload mtu now msg hnew
    obtain ⟨hmsg, -, hidle, -⟩ := OutgoingMessage.new_fresh hnew
    exact ⟨hmsg, fun idx _ => hidle idx⟩
  · rintro msg timeout ⟨hmsg, hlanded⟩
    exact ⟨hmsg.retimed timeout, hlanded⟩
  · rintro msg idx after ⟨hmsg, hlanded⟩ hsends
    exact ⟨hsends.tracked hmsg, hlanded.sends hmsg hsends⟩
  · rintro ack now systemMs jitter msg after freed - - ⟨hmsg, hlanded⟩ hsettles -
    exact ⟨hsettles.tracked, hlanded.settles hsettles⟩
  · rintro nack now systemMs jitter msg after freed - - ⟨hmsg, hlanded⟩ hsettles - -
    exact ⟨hsettles.tracked, hlanded.settles hsettles⟩
  -- The total over the messages changes by the flight of the one entry that the move writes.
  · have hinFlight := h.inFlight
    cases hmove with
    | unchanged hout hsame => rw [hout, hsame, hinFlight]
    | @queued _ _ id _ _ _ _ msg habsent hnew hout hsame =>
        obtain ⟨-, -, hidle, -⟩ := OutgoingMessage.new_fresh hnew
        have hinsert := AssocMap.total_insert session.outgoing (fun _ msg => msg.flight) id msg
        rw [AssocMap.weightAt_of_get_none _ habsent,
          OutgoingMessage.flight_eq_zero hidle] at hinsert
        rw [hout, hsame, hinFlight]
        omega
    | @retimed _ _ id timeout hout hsame =>
        have hmodify := AssocMap.total_modify session.outgoing (fun _ msg => msg.flight) id
          fun msg => { msg with timeout := timeout }
        rw [hout, hsame, hinFlight]
        exact (Nat.add_right_cancel hmodify).symm
    | transmitted htransmits =>
        exact (htransmits False False.elim).inFlight htracked hinFlight
    | @acked ack _ _ _ _ msg after freed hget hsettles hacked hout hfreed =>
        obtain ⟨others, htotal, hafter⟩ := flight_insert hget
        have hflight := hsettles.flight
        have hinserted : session.inFlight - freed =
            (session.outgoing.insert ack.messageId after).total fun _ msg => msg.flight := by
          rw [hafter]
          omega
        rw [hout, hfreed, hinserted]
        split
        -- A message that is fully acknowledged has nothing in flight, so dropping it keeps the
        -- total.
        next hall =>
          have hlanded := (h.messages _ _ hget).2.settles hsettles
          have hzero := hlanded.flight_of_allAcked hsettles.tracked.counted hall
          have herase := AssocMap.total_erase (session.outgoing.insert ack.messageId after)
            (fun _ msg => msg.flight) ack.messageId
          rw [AssocMap.weightAt_of_get _ (AssocMap.get_insert_self _ _ _), hzero] at herase
          exact herase.symm
        next => rfl
    | nacked hget hsettles hview hasked hout hbytes =>
        obtain ⟨others, htotal, hafter⟩ := flight_insert hget
        rw [hout, hafter]
        exact hbytes others (hinFlight.trans htotal)
    | @cleaned now _ hout hfailed =>
        have hretain := AssocMap.total_retain session.outgoing (fun _ msg => msg.flight)
          fun _ msg => !outgoingExpired now msg
        simp only [Bool.not_not] at hretain
        rw [hout, hfailed, hinFlight]
        omega

/-- As long as no zero-window probe sends an acknowledged fragment, the counter of bytes
in flight is the sum over the fragments that were sent and are neither acknowledged nor
lost, and each of them is in the in-flight queue of its message. -/
theorem inFlight_eq_unacked (config : SessionConfig C) (operations : List Operation)
    (hmeets : RunMeets SequenceSession.step ProbesUnacked (.new config) operations) :
    let session := runFrom SequenceSession.step (.new config) operations
    session.inFlight = session.outgoing.total (fun _ msg => msg.unackedFlight) ∧
      (∀ id msg idx, session.outgoing.get id = some msg → msg.isInFlight idx = true →
        ∃ entry ∈ msg.inFlightQueue, entry.1 = idx) ∧
      (session.outgoing.isEmpty = true → session.inFlight = 0) := by
  intro session
  have haccounted : session.Accounted :=
    hmeets.invariant Accounted (fun _ _ h hok => h.step hok) (Accounted.new config)
  refine ⟨?_, ?_, ?_⟩
  · rw [haccounted.inFlight]
    unfold AssocMap.total
    refine congrArg List.sum (List.map_congr_left fun entry hentry => ?_)
    have hget := AssocMap.get_eq_some_iff.mpr hentry
    exact OutgoingMessage.flight_eq_unackedFlight (haccounted.messages entry.1 entry.2 hget).2
  · intro id msg idx hget hflight
    exact (haccounted.messages id msg hget).1.queued idx hflight
  · intro hempty
    rw [haccounted.inFlight]
    unfold AssocMap.total
    rw [List.isEmpty_iff.mp hempty]
    rfl

end SequenceSession

/-- The left session of `referenceConfig` after a list of operations. -/
abbrev referenceSession (operations : List Operation) : SequenceSession FixedWindow :=
  runFrom (@SequenceSession.step FixedWindow exactFloatOps _) (.new (referenceConfig .left))
    operations

/-- Two fragments are sent; the peer acknowledges the first of them. -/
def halfAcked : List Operation :=
  [.call (.sendMessage .merkleNode (List.replicate 1400 0) 0), .call (.flush 1000 0 []),
    .receive (.ack ⟨5, 1, 0, 10⟩) 2000 0 0]

theorem inFlight_eq_unacked_half :
    (referenceSession halfAcked).inFlight = 52 ∧
      (referenceSession halfAcked).inFlight =
        (referenceSession halfAcked).outgoing.total fun _ msg => msg.unackedFlight := by
  have hprobe : (referenceSession (halfAcked.take 1)).probesAcked 1000 = false := by
    decide +kernel
  exact ⟨by decide +kernel,
    (@SequenceSession.inFlight_eq_unacked FixedWindow exactFloatOps _ (referenceConfig .left)
      halfAcked ⟨trivial, hprobe, trivial, trivial⟩).1⟩

/-- The peer acknowledges the first of two fragments before it is sent, and closes its
window; a probe sends that fragment, and the rest is acknowledged. -/
def probedRun : List Operation :=
  [.call (.sendMessage .blobData (List.replicate 1400 0) 0),
    .receive (.ack ⟨5, 1, 0, 0⟩) 1000 0 0, .call (.flush (fromSecs 20 : Nat) 0 []),
    .receive (.ack ⟨5, 2, 0, 10⟩) (fromSecs 21 : Nat) 0 0]

/-- The message is gone, and its first fragment is still counted. -/
theorem inFlight_leaks :
    (referenceSession probedRun).outgoing.isEmpty = true ∧
      (referenceSession probedRun).inFlight = 1353 := by
  decide +kernel

end MerkleTox.Sequenced
