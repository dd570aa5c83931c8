import MerkleTox.Sequenced.Flush

/-! # The moves of a flush

A flush is a sequence of moves: a packet is offered, and the session is updated by the answer,
or the session is updated without an offer. Every stage makes moves of its own kind, so what
every move of some stages keeps the stages keep. The main theorem of the module,
`SequenceSession.flushPackets_spec`, is of that form: a flush sends packets that the session
is entitled to send, and it leaves everything about messages alone except queues and timers.
-/

namespace MerkleTox.Sequenced

open Proto Library

variable {C : Type}

/-- `Packet` by its variants. -/
inductive PacketKind
  | data | ack | nack | ping | pong | datagram
  deriving DecidableEq, Repr

def Packet.kind : Packet → PacketKind
  | .data .. => .data
  | .ack _ => .ack
  | .nack _ => .nack
  | .ping _ => .ping
  | .pong .. => .pong
  | .datagram .. => .datagram

namespace PriorityScheduler

variable {isReady : MessageId → Option Nat} {scheduler : PriorityScheduler}

theorem serveLevel_ready {level : Fin 5} {rounds : Nat} {id : MessageId}
    (h : (serveLevel isReady level rounds scheduler).1 = some id) : (isReady id).isSome = true := by
  induction rounds generalizing scheduler with
  | zero => cases h
  | succ rounds ih =>
      unfold serveLevel at h
      split at h
      next => cases h
      next messageId rest hqueue =>
        split at h
        next => exact ih h
        next size hready =>
          have hsome : (isReady messageId).isSome = true := by rw [hready]; rfl
          split at h
          next =>
            dsimp only at h
            split at h
            · cases h
              exact hsome
            · cases h
              exact hsome
          next => cases h

/-- The scheduler picks a message that is ready. -/
theorem nextMessage_ready {id : MessageId} (h : (scheduler.nextMessage isReady).1 = some id) :
    (isReady id).isSome = true := by
  unfold nextMessage at h
  generalize scheduler.activeLevels.length = rounds at h
  induction rounds generalizing scheduler with
  | zero => cases h
  | succ rounds ih =>
      unfold nextMessage.go at h
      split at h
      next => cases h
      next level levels hlevels =>
        dsimp only at h
        split at h
        next => exact ih h
        next =>
          split at h
          next messageId served hserved =>
            cases h
            exact serveLevel_ready (congrArg Prod.fst hserved)
          next => exact ih h

end PriorityScheduler

namespace SequenceSession

/-- The zero-window probe is due, and it would send a new fragment that is acknowledged
already. -/
def probesAcked (session : SequenceSession C) (now : Instant) : Bool :=
  decide (session.peerRwnd < estimatedPayloadSize ∧ session.nextPacingTime ≤ now ∧
    session.rtt.rtoWithBackoff session.zeroWindowProbesSent ≤
      durationSince now session.lastRwndProbe) &&
  match session.outgoing.entries.findSome? FlushState.probeTarget with
  | some (id, idx, true) => (session.outgoing.get id).any fun msg => msg.isAcked idx
  | _ => false

/-- What the updates after a fragment that was sent leave alone, apart from the messages. -/
def sendFrame (session : SequenceSession C) :=
  (session.receiveView, session.datagramQueue, session.rtt, session.deliveredBytes,
    session.inFlight)

end SequenceSession

variable {packet : Packet} {answer isNew anyDataSent : Bool}
  {g : SequenceSession C → SequenceSession C}

namespace FlushState

/-- The stages of a flush; the fragments are offered by the zero-window probe and by the main
loop with its tail probe. -/
inductive Stage
  | ping | datagrams | probe | fragments | acks | nacks
  deriving DecidableEq, Repr

def Stage.kind : Stage → PacketKind
  | .ping => .ping
  | .datagrams => .datagram
  | .probe | .fragments => .data
  | .acks => .ack
  | .nacks => .nack

/-- Why a stage offers a fragment of a message, and what becomes of the message, marked as sent,
if the transport takes it. -/
inductive Picks [CongestionControl C] (session : SequenceSession C) (now : Instant)
    (msg : OutgoingMessage) : Stage → Nat → (OutgoingMessage → OutgoingMessage) → Prop
  | retransmitted {idx : Nat} {rest : List Nat} (hqueue : msg.retransmitQueue = idx :: rest) :
      Picks session now msg .fragments idx popRetransmit
  | timedOut {idx : Nat} {time : Instant} {rest : List (Nat × Instant)}
      (hqueue : msg.inFlightQueue = (idx, time) :: rest) :
      Picks session now msg .fragments idx (popInFlight idx)
  | fresh (hlt : msg.nextFragment < msg.numFragments)
      (hunacked : msg.isAcked msg.nextFragment = false) :
      Picks session now msg .fragments msg.nextFragment advanceNext
  | probed (hlt : msg.nextFragment < msg.numFragments)
      (hunacked : session.probesAcked now = false → msg.isAcked msg.nextFragment = false) :
      Picks session now msg .probe msg.nextFragment advanceNext
  | again {stage : Stage} {idx : Nat}
      (hknown : idx ∈ msg.retransmitQueue ∨ ∃ time, (idx, time) ∈ msg.inFlightQueue) :
      Picks session now msg stage idx fun marked => marked

variable [CongestionControl C]

/-- One move of a stage. -/
inductive Move (now : Instant) (nowMs : Int) (state : FlushState C) : Stage → FlushState C → Prop
  | ping {offered : FlushState C} (hoffer : state.offer (.ping nowMs) = (true, offered)) :
      Move now nowMs state .ping (offered.update fun session =>
        { session with lastPing := now, lastPingSent := some now, lastActivity := now })
  | datagram {messageType : MessageType} {data : Bytes} {queue : List (MessageType × Bytes)}
      {offered : FlushState C} (hqueue : state.session.datagramQueue = (messageType, data) :: queue)
      (hoffer : state.offer (.datagram messageType data) = (true, offered)) :
      Move now nowMs state .datagrams (offered.update fun session =>
        { session with
          datagramQueue := queue
          lastActivity := now
          nextPacingTime := max session.nextPacingTime now + (CongestionControl.pacingGap
            session.congestionControl (data.length + 10) : Nat) })
  | lost {messageType : MessageType} {data : Bytes} {queue : List (MessageType × Bytes)}
      {offered : FlushState C} (hqueue : state.session.datagramQueue = (messageType, data) :: queue)
      (hoffer : state.offer (.datagram messageType data) = (false, offered)) :
      Move now nowMs state .datagrams (offered.update fun session =>
        { session with datagramQueue := queue })
  | fragment {stage : Stage} {id : MessageId} {msg : OutgoingMessage} {idx : Nat}
      {f : OutgoingMessage → OutgoingMessage} {offered : FlushState C}
      {g : SequenceSession C → SequenceSession C}
      (hget : state.session.outgoing.get id = some msg) (hstage : stage.kind = .data)
      (hpicks : Picks state.session now msg stage idx f)
      (hoffer : state.offer (.data id idx msg.numFragments (msg.getFragment idx)) = (true, offered))
      (hout : ∀ session, (g session).outgoing = session.outgoing.modify id f)
      (hframe : ∀ session, (g session).sendFrame = session.sendFrame) :
      Move now nowMs state stage (offered.update fun session =>
        g (fragmentSent session id msg idx now))
  | ack {rwnd : Nat} {id : MessageId} {ack : SelectiveAck} {offered : FlushState C}
      (howed : owedAck state.session rwnd id = some ack)
      (hoffer : state.offer (.ack ack) = (true, offered)) :
      Move now nowMs state .acks (offered.update (clearPending id))
  | nack {id : MessageId} {reassembler : MessageReassembler} {nack : Nack}
      {offered : FlushState C} (hget : state.session.incoming.get id = some reassembler)
      (hnack : reassembler.createNack reassembler.buffer.baseIndex = some nack)
      (hoffer : state.offer (.nack nack) = (true, offered)) :
      Move now nowMs state .nacks (offered.update fun session =>
        { session with pendingNacks := session.pendingNacks.erase id })
  | refused {stage : Stage} {packet : Packet} {offered : FlushState C}
      (hoffer : state.offer packet = (false, offered)) (hkind : packet.kind = stage.kind)
      (hdatagram : packet.kind ≠ .datagram) : Move now nowMs state stage offered
  | schedule (scheduler : PriorityScheduler) :
      Move now nowMs state .fragments (state.update fun session =>
        { session with scheduler := scheduler })
  | noAck {rwnd : Nat} {id : MessageId} (hnone : owedAck state.session rwnd id = none) :
      Move now nowMs state .acks (state.update (clearPending id))
  | noNack (id : MessageId) :
      Move now nowMs state .nacks (state.update fun session =>
        { session with pendingNacks := session.pendingNacks.erase id })

/-- A sequence of moves of some stages. -/
abbrev Moves (now : Instant) (nowMs : Int) (stages : List Stage) :
    FlushState C → FlushState C → Prop :=
  Relation.ReflTransGen fun before after => ∃ stage ∈ stages, Move now nowMs before stage after

variable {now : Instant} {nowMs : Int} {stages more : List Stage}
variable {state middle after : FlushState C}

theorem Move.moves {stage : Stage} (h : Move now nowMs state stage after) :
    Moves now nowMs [stage] state after :=
  .single ⟨stage, List.mem_cons_self, h⟩

theorem Moves.mono (h : Moves now nowMs stages state after) (hsub : stages ⊆ more) :
    Moves now nowMs more state after :=
  Relation.ReflTransGen.mono (fun _ _ ⟨stage, hmem, hmove⟩ => ⟨stage, hsub hmem, hmove⟩) _ _ h

/-- What every move of the stages keeps holds after them. -/
theorem Moves.invariant (h : Moves now nowMs stages state after) (inv : FlushState C → Prop)
    (hmove : ∀ {state after stage}, stage ∈ stages → Move now nowMs state stage after →
      inv state → inv after) (hstart : inv state) : inv after := by
  induction h with
  | refl => exact hstart
  | tail _ hstep ih =>
      obtain ⟨stage, hmem, hstep⟩ := hstep
      exact hmove hmem hstep ih

omit [CongestionControl C] in
theorem prefix_of_offer (heq : state.offer packet = (answer, after)) :
    state.accepted <+: after.accepted :=
  accepted_offer heq ▸ List.prefix_append _ _

/-- What was sent stays sent. -/
theorem Moves.prefix_accepted (h : Moves now nowMs stages state after) :
    state.accepted <+: after.accepted := by
  refine h.invariant (fun after => state.accepted <+: after.accepted) (fun _ hmove hprefix => ?_)
    (List.prefix_refl _)
  refine hprefix.trans ?_
  cases hmove with
  | ping hoffer | datagram _ hoffer | lost _ hoffer | fragment _ _ _ hoffer | ack _ hoffer
  | nack _ _ hoffer | refused hoffer => exact (prefix_of_offer hoffer :)
  | _ => exact List.prefix_refl _

theorem Moves.ne_nil (h : Moves now 0 stages state after) (hsent : state.accepted ≠ []) :
    after.accepted ≠ [] :=
  h.prefix_accepted.ne_nil hsent

/-! ## The stages -/

theorem flushPing_moves (state : FlushState C) (now : Instant) (nowMs : Int) :
    Moves now nowMs [.ping] state (state.flushPing now nowMs) := by
  unfold flushPing
  dsimp only
  split
  next =>
    split
    next offered hoffer => exact (Move.ping hoffer).moves
    next offered hoffer => exact (Move.refused hoffer rfl nofun).moves
  next => exact .refl

theorem flushDatagrams_moves (rounds : Nat) (state : FlushState C) :
    Moves now nowMs [.datagrams] state (flushDatagrams now rounds state) := by
  induction rounds generalizing state with
  | zero => exact .refl
  | succ rounds ih =>
      unfold flushDatagrams
      split
      next => exact .refl
      next messageType data queue hqueue =>
        split
        next => exact .refl
        next =>
          dsimp only
          split
          next offered heq =>
            obtain ⟨before, hoffer, rfl⟩ := offer_of_update heq
            exact (Move.lost hqueue hoffer).moves
          next offered heq =>
            obtain ⟨before, hoffer, rfl⟩ := offer_of_update heq
            exact (Move.datagram hqueue hoffer).moves.trans (ih _)

variable {id : MessageId} {idx : Nat} {msg : OutgoingMessage} {session : SequenceSession C}
variable {f : OutgoingMessage → OutgoingMessage}

/-- What a zero-window probe carries. -/
theorem probeTarget_cases {entry : MessageId × OutgoingMessage}
    (h : probeTarget entry = some (id, idx, isNew)) :
    entry.1 = id ∧ ((isNew = false ∧ idx ∈ entry.2.retransmitQueue) ∨
      (isNew = true ∧ idx = entry.2.nextFragment ∧ idx < entry.2.numFragments) ∨
      (isNew = false ∧ ∃ sent, (idx, sent) ∈ entry.2.inFlightQueue)) := by
  unfold probeTarget at h
  dsimp only at h
  split at h
  next first rest hqueue =>
    cases h
    exact ⟨rfl, .inl ⟨rfl, hqueue ▸ List.mem_cons_self⟩⟩
  next =>
    split at h
    next hlt =>
      cases h
      exact ⟨rfl, .inr (.inl ⟨rfl, rfl, hlt⟩)⟩
    next =>
      obtain ⟨⟨first, sent⟩, hhead, heq⟩ := Option.map_eq_some_iff.mp h
      cases heq
      exact ⟨rfl, .inr (.inr ⟨rfl, sent, List.mem_of_mem_head? hhead⟩)⟩

/-- A message that is ready and has neither a retransmission nor a timed-out fragment has
a new one that is not acknowledged. -/
theorem fragmentReady_new (hget : session.outgoing.get id = some msg)
    (hready : (fragmentReady session now anyDataSent id).isSome = true)
    (hqueue : msg.retransmitQueue = [])
    (htimeout : (msg.inFlightQueue.head?.filter fun entry => decide
      (session.rtt.rtoWithBackoff (msg.fragmentState entry.1).rtoBackoff ≤
        durationSince now entry.2)) = none) : msg.isAcked msg.nextFragment = false := by
  have htimedOut : (msg.inFlightQueue.head?.filter fun entry =>
      decide (session.rtt.rto * 2 ^ min 6 (msg.fragmentState entry.1).rtoBackoff ≤
        durationSince now entry.2) &&
      !msg.isAcked entry.1 &&
      (msg.fragmentState entry.1).lastSent.all (fun sent => sent ≤ entry.2) &&
      (decide (session.inFlight / estimatedPayloadSize <
          CongestionControl.cwnd session.congestionControl) &&
        decide (session.inFlight + msg.fragmentLen entry.1 ≤ session.peerRwnd) ||
        !anyDataSent)) = none := by
    rw [Option.filter_eq_none_iff] at htimeout ⊢
    intro entry hentry hdue
    refine htimeout entry hentry ?_
    simp only [Bool.and_eq_true] at hdue
    rw [RttEstimator.rtoWithBackoff, Nat.min_comm]
    exact hdue.1.1.1
  unfold fragmentReady at hready
  simp only [hget, hqueue, htimedOut, List.head?_nil, Option.filter_none, Option.bind_eq_bind,
    Option.bind_some] at hready
  split at hready
  next => cases hready
  next =>
    split at hready
    next hnew => simpa using hnew.2.1
    next => cases hready

section Fragment

variable {id : MessageId} {idx : Nat} {stage : Stage}

theorem trySendFragment_unsent (heq : state.trySendFragment id idx now = (false, after))
    (hstage : stage.kind = .data) : Moves now nowMs [stage] state after := by
  unfold trySendFragment at heq
  split at heq
  next =>
    cases heq
    exact .refl
  next msg hget =>
    split at heq
    next offered hoffer =>
      cases heq
      exact (Move.refused hoffer hstage.symm nofun).moves
    next => cases heq

/-- A fragment that the transport takes, with what is noted about it afterwards. -/
theorem trySendFragment_sent {msg : OutgoingMessage} {f : OutgoingMessage → OutgoingMessage}
    (hget : state.session.outgoing.get id = some msg)
    (heq : state.trySendFragment id idx now = (true, after)) (hstage : stage.kind = .data)
    (hpicks : Picks state.session now msg stage idx f)
    (hout : ∀ session, (g session).outgoing = session.outgoing.modify id f)
    (hframe : ∀ session, (g session).sendFrame = session.sendFrame) :
    Move now nowMs state stage (after.update g) := by
  unfold trySendFragment at heq
  simp only [hget] at heq
  split at heq
  next => cases heq
  next offered hoffer =>
    cases heq
    exact .fragment hget hstage hpicks hoffer hout hframe

omit [CongestionControl C] in
theorem modify_same (session : SequenceSession C) (id : MessageId) :
    session.outgoing = session.outgoing.modify id fun marked => marked := by
  simp [AssocMap.modify, AssocMap.mapValues]

end Fragment

/-- The zero-window probe makes one move at most. -/
theorem flushProbe_move (state : FlushState C) (now : Instant) (nowMs : Int) :
    state.flushProbe now = state ∨ Move now nowMs state .probe (state.flushProbe now) := by
  unfold flushProbe
  dsimp only
  split
  next hdue =>
    cases htarget : state.session.outgoing.entries.findSome? probeTarget with
    | none => exact .inl rfl
    | some target =>
        obtain ⟨id, idx, isNew⟩ := target
        obtain ⟨⟨id', msg⟩, hentry, hfound⟩ := List.exists_of_findSome?_eq_some htarget
        obtain ⟨rfl, hcases⟩ := probeTarget_cases hfound
        have hget := AssocMap.get_eq_some_iff.mpr hentry
        dsimp only
        split
        next unsent heq =>
          unfold trySendFragment at heq
          simp only [hget] at heq
          split at heq
          next offered hoffer =>
            cases heq
            exact .inr (.refused hoffer rfl (by rintro ⟨⟩))
          next => cases heq
        next sent heq =>
          right
          rcases hcases with ⟨rfl, hwaiting⟩ | ⟨rfl, rfl, hlt⟩ | ⟨rfl, hflying⟩
          · exact trySendFragment_sent hget heq rfl (.again (.inl hwaiting))
              (fun session => modify_same session id') fun _ => rfl
          · refine trySendFragment_sent hget heq rfl (.probed hlt fun hsafe => ?_)
              (g := fun session =>
                { session with
                  outgoing := session.outgoing.modify id' advanceNext
                  lastRwndProbe := now
                  zeroWindowProbesSent := session.zeroWindowProbesSent + 1 })
              (fun _ => rfl) fun _ => rfl
            unfold SequenceSession.probesAcked at hsafe
            rw [htarget, decide_eq_true ⟨hdue.1, hdue.2.2.1, hdue.2.2.2⟩, Bool.true_and] at hsafe
            simpa [hget] using hsafe
          · exact trySendFragment_sent hget heq rfl (.again (.inr hflying))
              (fun session => modify_same session id') fun _ => rfl
  next => exact .inl rfl

theorem flushProbe_moves (state : FlushState C) (now : Instant) (nowMs : Int) :
    Moves now nowMs [.probe] state (state.flushProbe now) := by
  rcases state.flushProbe_move now nowMs with hsame | hmove
  · rw [hsame]
  · exact hmove.moves

/-- A message that is ready is served by a fragment, or nothing is taken. -/
theorem sendNextFragmentForMessage_moves
    (hready : (fragmentReady state.session now anyDataSent id).isSome = true) :
    Moves now nowMs [.fragments] state (state.sendNextFragmentForMessage id now).2 := by
  unfold sendNextFragmentForMessage
  -- The cases of the source in its order: a retransmission, a timeout at the front, a fresh
  -- fragment.
  split
  next => exact .refl
  next msg hget =>
    dsimp only
    split
    next _ idx rest hqueue =>
      split
      next sent heq =>
        exact (trySendFragment_sent hget heq rfl (.retransmitted hqueue) (g := fun session =>
          { session with outgoing := session.outgoing.modify id popRetransmit })
          (fun _ => rfl) fun _ => rfl).moves
      next unsent heq => exact trySendFragment_unsent heq rfl
    next idx time hqueue htimedOut =>
      obtain ⟨hhead, -⟩ := Option.filter_eq_some_iff.mp htimedOut
      obtain ⟨rest, hflying⟩ := List.head?_eq_some_iff.mp hhead
      split
      next sent heq =>
        exact (trySendFragment_sent hget heq rfl (.timedOut hflying) (g := fun session =>
          { session with
            outgoing := session.outgoing.modify id (popInFlight idx)
            congestionControl := CongestionControl.onTimeout session.congestionControl now })
          (fun _ => rfl) fun _ => rfl).moves
      next unsent heq => exact trySendFragment_unsent heq rfl
    next hqueue htimedOut =>
      split
      next hlt =>
        split
        next sent heq =>
          exact (trySendFragment_sent hget heq rfl
            (.fresh hlt (fragmentReady_new hget hready hqueue htimedOut)) (g := fun session =>
              { session with outgoing := session.outgoing.modify id advanceNext })
            (fun _ => rfl) fun _ => rfl).moves
        next unsent heq => exact trySendFragment_unsent heq rfl
      next => exact .refl

theorem flushData_moves (rounds : Nat) (anyDataSent : Bool) (state : FlushState C) :
    Moves now nowMs [.fragments] state (flushData now rounds anyDataSent state).2 := by
  induction rounds generalizing anyDataSent state with
  | zero => exact .refl
  | succ rounds ih =>
      unfold flushData
      dsimp only
      set scheduled := state.update fun session =>
        { session with scheduler := (state.session.scheduler.nextMessage
          (fragmentReady state.session now anyDataSent)).2 }
      have hscheduled : Moves now nowMs [.fragments] state scheduled := (Move.schedule _).moves
      split
      next => exact hscheduled
      next id hnext =>
        have hready : (fragmentReady scheduled.session now anyDataSent id).isSome = true :=
          PriorityScheduler.nextMessage_ready hnext
        have hsend := hscheduled.trans (sendNextFragmentForMessage_moves hready)
        split
        next sent heq =>
          rw [heq] at hsend
          exact hsend.trans (ih true sent)
        next unsent heq =>
          rw [heq] at hsend
          exact hsend

theorem flushTailProbe_moves [FloatOps] (state : FlushState C) (anyDataSent : Bool) :
    Moves now nowMs [.fragments] state (state.flushTailProbe now anyDataSent) := by
  unfold flushTailProbe
  dsimp only
  split
  next =>
    split
    next id idx htarget =>
      obtain ⟨⟨id', msg⟩, hentry, hfound⟩ := List.exists_of_findSome?_eq_some htarget
      unfold tailTarget at hfound
      split at hfound
      next idx' time hlast =>
        split at hfound
        next =>
          obtain ⟨rfl, rfl⟩ := Prod.mk.inj (Option.some.inj hfound)
          cases heq : state.trySendFragment id' idx' now with
          | mk answer after =>
              cases answer with
              | false => exact trySendFragment_unsent heq rfl
              | true =>
                  exact (trySendFragment_sent (AssocMap.get_eq_some_iff.mpr hentry) heq rfl
                    (.again (.inr ⟨time, List.mem_of_getLast? hlast⟩))
                    (fun session => modify_same session id') fun _ => rfl).moves
        next => cases hfound
      next => cases hfound
    next => exact .refl
  next => exact .refl

theorem sendAcks_moves (now : Instant) (rwnd : Nat) (ids : List MessageId) (state : FlushState C) :
    Moves now nowMs [.acks] state (sendAcks rwnd ids state) := by
  induction ids generalizing state with
  | nil => exact .refl
  | cons id ids ih =>
      unfold sendAcks
      split
      next hnone => exact (Move.noAck hnone).moves.trans (ih _)
      next ack howed =>
        split
        next offered hoffer => exact (Move.ack howed hoffer).moves.trans (ih _)
        next offered hoffer => exact (Move.refused hoffer rfl nofun).moves

theorem sendNacks_moves (now : Instant) (ids : List MessageId) (state : FlushState C) :
    Moves now nowMs [.nacks] state (sendNacks ids state) := by
  induction ids generalizing state with
  | nil => exact .refl
  | cons id ids ih =>
      unfold sendNacks
      dsimp only
      split
      next => exact (Move.noNack id).moves.trans (ih _)
      next nack hnack =>
        obtain ⟨reassembler, hget, hnack⟩ := Option.bind_eq_some_iff.mp hnack
        split
        next offered hoffer => exact (Move.nack hget hnack hoffer).moves.trans (ih _)
        next offered hoffer => exact (Move.refused hoffer rfl nofun).moves

section Stages

variable [FloatOps]

/-- The stage of the datagrams. -/
def flushQueue (state : FlushState C) (now : Instant) : FlushState C :=
  flushDatagrams now state.session.datagramQueue.length state

/-- The stages of the fragments: the zero-window probe, the main loop and the tail probe. -/
def flushFragments (state : FlushState C) (now : Instant) : FlushState C :=
  let state := state.flushProbe now
  let (anyDataSent, state) := flushData now (dataRounds state.session) false state
  state.flushTailProbe now anyDataSent

section

variable (state : FlushState C)

theorem flushAll_stages (now : Instant) (nowMs : Int) :
    state.flushAll now nowMs =
      (((((state.flushPing now nowMs).flushQueue now).flushFragments now).flushPendingAcks
        now).flushPendingNacks now).update detectAppLimited := by
  unfold flushAll flushQueue flushFragments
  rfl

omit [FloatOps] in
theorem flushQueue_moves :
    Moves now nowMs [.datagrams] state (state.flushQueue now) :=
  flushDatagrams_moves _ state

/-- The main loop and the tail probe, after the zero-window probe. -/
theorem flushFragments_moves_probed (nowMs : Int) :
    Moves now nowMs [.fragments] (state.flushProbe now) (state.flushFragments now) := by
  unfold flushFragments
  dsimp only
  generalize state.flushProbe now = probed
  have hdata : Moves now nowMs [.fragments] probed
      (flushData now (dataRounds probed.session) false probed).2 := flushData_moves _ _ _
  generalize flushData now (dataRounds probed.session) false probed = data at hdata
  exact hdata.trans (flushTailProbe_moves _ _)

theorem flushFragments_moves :
    Moves now nowMs [.probe, .fragments] state (state.flushFragments now) :=
  ((flushProbe_moves state now nowMs).mono (by decide)).trans
    ((flushFragments_moves_probed state nowMs).mono (by decide))

omit [FloatOps] in
theorem flushPendingAcks_moves :
    Moves now nowMs [.acks] state (state.flushPendingAcks now) := sendAcks_moves _ _ _ _

omit [FloatOps] in
theorem flushPendingNacks_moves :
    Moves now nowMs [.nacks] state (state.flushPendingNacks now) := sendNacks_moves _ _ _

/-- A flush is a sequence of moves, up to the flag of the congestion control. -/
theorem flushAll_moves (now : Instant) (nowMs : Int) :
    ∃ last, Moves now nowMs [.ping, .datagrams, .probe, .fragments, .acks, .nacks] state last ∧
      state.flushAll now nowMs = last.update detectAppLimited := by
  rw [flushAll_stages]
  refine ⟨_, ?_, rfl⟩
  have hping : Moves now nowMs [.ping, .datagrams, .probe, .fragments, .acks, .nacks] state
      (state.flushPing now nowMs) := (flushPing_moves state now nowMs).mono (by decide)
  generalize state.flushPing now nowMs = pinged at hping ⊢
  have hqueue := hping.trans ((flushQueue_moves pinged).mono (by decide))
  generalize pinged.flushQueue now = emptied at hqueue ⊢
  have hfragments := hqueue.trans ((flushFragments_moves emptied).mono (by decide))
  generalize emptied.flushFragments now = sent at hfragments ⊢
  have hacks := hfragments.trans ((flushPendingAcks_moves sent).mono (by decide))
  generalize sent.flushPendingAcks now = acked at hacks ⊢
  exact hacks.trans ((flushPendingNacks_moves acked).mono (by decide))

end

end Stages

/-! ## What the moves keep -/

theorem Picks.ackView {stage : Stage} (h : Picks session now msg stage idx f)
    (marked : OutgoingMessage) : (f marked).ackView = marked.ackView := by
  cases h with
  | retransmitted => exact ackView_popRetransmit marked
  | _ => rfl

/-- The session after a fragment that was sent. -/
theorem fragment_spec (session : SequenceSession C) (msg : OutgoingMessage) (idx : Nat)
    (now : Instant) (hout : ∀ session, (g session).outgoing = session.outgoing.modify id f)
    (hframe : ∀ session, (g session).sendFrame = session.sendFrame) :
    (∃ lastDelivery appLimited, (g (fragmentSent session id msg idx now)).outgoing =
      session.outgoing.insert id (f (msg.markFragmentSent idx now session.deliveredBytes
        lastDelivery appLimited (msg.fragmentLen idx)).2)) ∧
      (g (fragmentSent session id msg idx now)).sendFrame =
        (session.receiveView, session.datagramQueue, session.rtt, session.deliveredBytes,
          (if (msg.fragmentState idx).lastSent.isSome then session.inFlight - msg.fragmentLen idx
            else session.inFlight) + msg.fragmentLen idx) := by
  refine ⟨?_, (hframe _).trans rfl⟩
  rw [hout]
  exact ⟨_, _, AssocMap.modify_insert _ _ _ _⟩

/-- A state of the flush that started at `start`. -/
structure Tracks (start : SequenceSession C) (state : FlushState C) : Prop where
  receiveView_eq : state.session.receiveView = start.receiveView
  outgoing : state.session.SameOutgoing start
  entitled : ∀ packet ∈ state.accepted, start.Entitled packet

section Tracks

variable {start : SequenceSession C}

omit [CongestionControl C] in
theorem Tracks.update (h : Tracks start state) {f : SequenceSession C → SequenceSession C}
    (hview : (f state.session).receiveView = state.session.receiveView)
    (hout : (f state.session).SameOutgoing state.session) : Tracks start (state.update f) :=
  ⟨hview.trans h.receiveView_eq, fun id => (hout id).trans (h.outgoing id), h.entitled⟩

omit [CongestionControl C] in
theorem Tracks.offer (h : Tracks start state) {offered : FlushState C}
    (heq : state.offer packet = (answer, offered))
    (hpacket : answer = true → start.Entitled packet) : Tracks start offered := by
  have hsession := session_offer heq
  refine ⟨hsession ▸ h.receiveView_eq, hsession ▸ h.outgoing, fun other hother => ?_⟩
  rw [accepted_offer heq] at hother
  rcases List.mem_append.mp hother with hold | hnew
  · exact h.entitled other hold
  · cases answer with
    | true => exact List.mem_singleton.mp hnew ▸ hpacket rfl
    | false => exact absurd hnew List.not_mem_nil

theorem Move.tracks {stage : Stage} (hmove : Move now nowMs state stage after)
    (h : Tracks start state) : Tracks start after := by
  cases hmove with
  | ping hoffer
  | datagram _ hoffer => exact (h.offer hoffer fun _ => trivial).update rfl (.of_eq rfl)
  | lost _ hoffer => exact (h.offer hoffer nofun).update rfl (.of_eq rfl)
  | @fragment _ id msg idx f offered g hget hstage hpicks hoffer hout hframe =>
      have hpacket : start.Entitled (.data id idx msg.numFragments (msg.getFragment idx)) := by
        have hsame := h.outgoing id
        rw [hget, Option.map_some] at hsame
        obtain ⟨original, horiginal, hview⟩ := Option.map_eq_some_iff.mp hsame.symm
        have hcontent := OutgoingMessage.content_eq_of_ackView_eq hview
        refine ⟨original, horiginal, ?_, (OutgoingMessage.getFragment_congr hcontent idx).symm⟩
        exact (congrArg (fun content => content.2.2.2) hcontent).symm
      obtain ⟨⟨_, _, houtgoing⟩, hkept⟩ := fragment_spec offered.session msg idx now hout hframe
      have hget' : offered.session.outgoing.get id = some msg := session_offer hoffer ▸ hget
      refine (h.offer hoffer fun _ => hpacket).update (congrArg Prod.fst hkept) ?_
      exact sameOutgoing_insert hget' houtgoing
        ((hpicks.ackView _).trans (ackView_markFragmentSent _ _ _ _ _ _ _))
  | @ack rwnd id ack _ howed hoffer =>
      refine (h.offer hoffer fun _ => ⟨rwnd, id, ?_⟩).update rfl (.of_eq rfl)
      exact (owedAck_congr h.receiveView_eq rwnd id).symm.trans howed
  | nack _ _ hoffer => exact (h.offer hoffer fun _ => trivial).update rfl (.of_eq rfl)
  | refused hoffer => exact h.offer hoffer nofun
  | _ => exact h.update rfl (.of_eq rfl)

end Tracks

end FlushState

namespace SequenceSession

variable [FloatOps] [CongestionControl C]

/-- A flush keeps the receiving side and the content and acknowledgements of every
outgoing message, and hands the transport only packets the session is entitled to
send. -/
theorem flushPackets_spec (session : SequenceSession C) (now : Instant) (nowMs : Int)
    (answers : List Bool) :
    (session.flushPackets now nowMs answers).1.receiveView = session.receiveView ∧
      (session.flushPackets now nowMs answers).1.SameOutgoing session ∧
      ∀ packet ∈ (session.flushPackets now nowMs answers).2, session.Entitled packet := by
  obtain ⟨last, hmoves, heq⟩ := FlushState.flushAll_moves ⟨session, answers, []⟩ now nowMs
  have hlast := hmoves.invariant (FlushState.Tracks session)
    (fun _ hmove htracks => hmove.tracks htracks) ⟨rfl, .of_eq rfl, nofun⟩
  obtain ⟨appLimited, hlimited⟩ := FlushState.detectAppLimited_eq last.session
  unfold flushPackets
  dsimp only
  rw [heq, FlushState.update, hlimited]
  exact ⟨hlast.receiveView_eq, hlast.outgoing, hlast.entitled⟩

end SequenceSession

end MerkleTox.Sequenced
