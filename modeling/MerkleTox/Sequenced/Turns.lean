import MerkleTox.Sequenced.FlushMoves

/-! # The turns of a flush

A flush is a sequence of turns: a packet is offered, the transport answers, and the session
is as the answer leaves it. Between the turns the session schedules and forgets
acknowledgements that it no longer owes. What holds of every turn holds of the flush.
-/

namespace MerkleTox.Sequenced

open Proto

variable {packet : Packet} {answer : Bool}
variable {C : Type}

namespace SequenceSession

/-- What becomes of a session when the transport answers an offered packet. Only a datagram
is gone whatever the answer. -/
inductive Handles (nowMs : Int) (session : SequenceSession C) :
    Packet → Bool → SequenceSession C → Prop
  | ping (lastPing : Instant) (lastPingSent : Option Instant) (lastActivity : Instant) :
      Handles nowMs session (.ping nowMs) true { session with
        lastPing := lastPing, lastPingSent := lastPingSent, lastActivity := lastActivity }
  | datagram {messageType : MessageType} {data : Bytes} {queue : List (MessageType × Bytes)}
      (hqueue : session.datagramQueue = (messageType, data) :: queue)
      (lastActivity nextPacingTime : Instant) :
      Handles nowMs session (.datagram messageType data) true { session with
        datagramQueue := queue, lastActivity := lastActivity, nextPacingTime := nextPacingTime }
  | lost {messageType : MessageType} {data : Bytes} {queue : List (MessageType × Bytes)}
      (hqueue : session.datagramQueue = (messageType, data) :: queue) :
      Handles nowMs session (.datagram messageType data) false
        { session with datagramQueue := queue }
  | data {id : MessageId} {msg : OutgoingMessage} {after : SequenceSession C}
      (hget : session.outgoing.get id = some msg) (idx : Nat)
      (hsame : after.SameOutgoing session)
      (hqueue : after.datagramQueue = session.datagramQueue) :
      Handles nowMs session (.data id idx msg.numFragments (msg.getFragment idx)) true after
  | ack (id : MessageId) (ack : SelectiveAck) :
      Handles nowMs session (.ack ack) true (FlushState.clearPending id session)
  | nack {id : MessageId} {reassembler : MessageReassembler} {nack : Nack}
      (hget : session.incoming.get id = some reassembler)
      (hnack : reassembler.createNack reassembler.buffer.baseIndex = some nack) :
      Handles nowMs session (.nack nack) true
        { session with pendingNacks := session.pendingNacks.erase id }
  | refused {packet : Packet} (hkind : packet.kind ≠ .datagram) :
      Handles nowMs session packet false session

/-- What happens between the turns. -/
inductive Silent (session : SequenceSession C) : SequenceSession C → Prop
  | schedule (scheduler : PriorityScheduler) :
      Silent session { session with scheduler := scheduler }
  | appLimited (appLimited : Bool) : Silent session { session with appLimited := appLimited }
  | noAck {rwnd : Nat} {id : MessageId} (hnone : FlushState.owedAck session rwnd id = none) :
      Silent session (FlushState.clearPending id session)
  | noNack (id : MessageId) :
      Silent session { session with pendingNacks := session.pendingNacks.erase id }

end SequenceSession

/-- An offered packet and its answer, with the session before and after. -/
structure Turn (C : Type) where
  before : SequenceSession C
  packet : Packet
  answer : Bool
  after : SequenceSession C

namespace SequenceSession

/-- The session passes through the turns, one after the other. -/
inductive Walk (nowMs : Int) (start : SequenceSession C) :
    List (Turn C) → SequenceSession C → Prop
  | nil : Walk nowMs start [] start
  | silent {turns : List (Turn C)} {session after : SequenceSession C}
      (h : Walk nowMs start turns session) (hsilent : session.Silent after) :
      Walk nowMs start turns after
  | turn {turns : List (Turn C)} {session after : SequenceSession C} {packet : Packet}
      {answer : Bool} (h : Walk nowMs start turns session)
      (hhandles : session.Handles nowMs packet answer after) :
      Walk nowMs start (turns ++ [⟨session, packet, answer, after⟩]) after

variable {nowMs : Int} {start : SequenceSession C}

theorem Walk.trans {first second : List (Turn C)} {middle last : SequenceSession C}
    (hfirst : Walk nowMs start first middle) (hsecond : Walk nowMs middle second last) :
    Walk nowMs start (first ++ second) last := by
  induction hsecond with
  | nil => rwa [List.append_nil]
  | silent _ hsilent ih => exact ih.silent hsilent
  | turn _ hhandles ih =>
      rw [← List.append_assoc]
      exact ih.turn hhandles

variable {session : SequenceSession C} {turns : List (Turn C)}

/-- Each turn of a walk is handled as it has to be. -/
theorem Walk.handles (h : Walk nowMs start turns session) {turn : Turn C} (hmem : turn ∈ turns) :
    turn.before.Handles nowMs turn.packet turn.answer turn.after := by
  induction h with
  | nil => exact absurd hmem List.not_mem_nil
  | silent _ _ ih => exact ih hmem
  | turn _ hhandles ih =>
      rcases List.mem_append.mp hmem with hold | hnew
      · exact ih hold
      · rw [List.mem_singleton.mp hnew]
        exact hhandles

/-- What every turn and every silent step keeps holds at the end of the walk, and what
follows from it for accepted packets holds of all of them. -/
theorem Walk.invariant (h : Walk nowMs start turns session) {inv : SequenceSession C → Prop}
    {fits : Packet → Prop}
    (hsilent : ∀ {session after}, session.Silent after → inv session → inv after)
    (hhandles : ∀ {session packet answer after}, session.Handles nowMs packet answer after →
      inv session → inv after ∧ (answer = true → fits packet)) (hstart : inv start) :
    inv session ∧ ∀ turn ∈ turns, turn.answer = true → fits turn.packet := by
  induction h with
  | nil => exact ⟨hstart, fun _ hmem => absurd hmem List.not_mem_nil⟩
  | silent _ hstep ih => exact ⟨hsilent hstep ih.1, ih.2⟩
  | turn _ hstep ih =>
      obtain ⟨hafter, hfits⟩ := hhandles hstep ih.1
      refine ⟨hafter, fun turn hmem => ?_⟩
      rcases List.mem_append.mp hmem with hold | hnew
      · exact ih.2 turn hold
      · rw [List.mem_singleton.mp hnew]
        exact hfits

end SequenceSession

/-- The packets that the transport took. -/
def takenPackets (turns : List (Turn C)) : List Packet :=
  (turns.filter Turn.answer).map Turn.packet

theorem takenPackets_append (first second : List (Turn C)) :
    takenPackets (first ++ second) = takenPackets first ++ takenPackets second := by
  simp [takenPackets]

namespace FlushState

/-- From one state of a flush to a later one: the turns use up the answers, an exhausted
list standing for acceptance, and the transport has the packets that it took. -/
structure Follows (nowMs : Int) (start : FlushState C) (turns : List (Turn C))
    (state : FlushState C) : Prop where
  walk : start.session.Walk nowMs turns state.session
  answered : ∀ (index : Nat) (turn : Turn C), turns[index]? = some turn →
    turn.answer = start.answers[index]?.getD true
  answers : state.answers = start.answers.drop turns.length
  accepted : state.accepted = start.accepted ++ takenPackets turns

variable {nowMs : Int} {start state : FlushState C} {turns : List (Turn C)}

theorem Follows.refl (state : FlushState C) : Follows nowMs state [] state where
  walk := .nil
  answered _ _ hget := nomatch hget
  answers := rfl
  accepted := (List.append_nil _).symm

variable {after : SequenceSession C}

theorem Follows.silent (h : Follows nowMs start turns state)
    (hsilent : state.session.Silent after) :
    Follows nowMs start turns { state with session := after } :=
  ⟨h.walk.silent hsilent, h.answered, h.answers, h.accepted⟩

theorem Follows.trans {more : List (Turn C)} {last : FlushState C}
    (hfirst : Follows nowMs start turns state) (hsecond : Follows nowMs state more last) :
    Follows nowMs start (turns ++ more) last where
  walk := hfirst.walk.trans hsecond.walk
  answered index turn hget := by
    rw [List.getElem?_append] at hget
    split at hget
    next => exact hfirst.answered index turn hget
    next hlate =>
      have hanswer := hsecond.answered _ turn hget
      rwa [hfirst.answers, List.getElem?_drop, Nat.add_sub_cancel' (Nat.not_lt.mp hlate)]
        at hanswer
  answers := by rw [hsecond.answers, hfirst.answers, List.drop_drop, List.length_append]
  accepted := by
    rw [hsecond.accepted, hfirst.accepted, takenPackets_append, List.append_assoc]

/-- One turn: the packet is offered, and the session is handled by the answer. -/
theorem follows_offer {offered : FlushState C} (heq : state.offer packet = (answer, offered))
    (hhandles : state.session.Handles nowMs packet answer after) :
    Follows nowMs state [⟨state.session, packet, answer, after⟩]
      { offered with session := after } := by
  have hwalk : state.session.Walk nowMs [⟨state.session, packet, answer, after⟩] after :=
    SequenceSession.Walk.nil.turn hhandles
  unfold offer at heq
  split at heq
  next hanswers =>
    cases heq
    refine ⟨hwalk, fun index turn hget => ?_, by simp [hanswers], rfl⟩
    rw [List.getElem?_singleton] at hget
    split at hget
    · cases hget
      simp [hanswers]
    · cases hget
  next rest hanswers =>
    cases heq
    refine ⟨hwalk, fun index turn hget => ?_, by simp [hanswers], rfl⟩
    rw [List.getElem?_singleton] at hget
    split at hget
    next hzero =>
      cases hget
      simp [hanswers, hzero]
    next => cases hget
  next rest hanswers =>
    cases heq
    refine ⟨hwalk, fun index turn hget => ?_, by simp [hanswers], ?_⟩
    · rw [List.getElem?_singleton] at hget
      split at hget
      next hzero =>
        cases hget
        simp [hanswers, hzero]
      next => cases hget
    · exact (List.append_nil _).symm

/-- The turns between two states, all with packets of some kinds. -/
def Through (nowMs : Int) (kinds : List PacketKind) (start : FlushState C)
    (turns : List (Turn C)) (state : FlushState C) : Prop :=
  Follows nowMs start turns state ∧ ∀ turn ∈ turns, turn.packet.kind ∈ kinds

/-- The later state is reached by turns with packets of some kinds. -/
def Reaches (nowMs : Int) (kinds : List PacketKind) (start state : FlushState C) : Prop :=
  ∃ turns, Through nowMs kinds start turns state

section Reaches

variable {kinds : List PacketKind} {middle : FlushState C}

theorem Reaches.refl (state : FlushState C) : Reaches nowMs kinds state state :=
  ⟨[], .refl state, fun _ hmem => absurd hmem List.not_mem_nil⟩

theorem Reaches.trans (hfirst : Reaches nowMs kinds start middle)
    (hsecond : Reaches nowMs kinds middle state) : Reaches nowMs kinds start state := by
  obtain ⟨first, hfollows, hkinds⟩ := hfirst
  obtain ⟨second, hfollows', hkinds'⟩ := hsecond
  refine ⟨first ++ second, hfollows.trans hfollows', fun turn hmem => ?_⟩
  rcases List.mem_append.mp hmem with hold | hnew
  · exact hkinds turn hold
  · exact hkinds' turn hnew

variable {after : SequenceSession C} {offered : FlushState C}

theorem Reaches.of_silent (hsilent : state.session.Silent after) :
    Reaches nowMs kinds state { state with session := after } :=
  ⟨[], (Follows.refl state).silent hsilent, fun _ hmem => absurd hmem List.not_mem_nil⟩

theorem Reaches.of_offer (heq : state.offer packet = (answer, offered))
    (hhandles : state.session.Handles nowMs packet answer after) (hkind : packet.kind ∈ kinds) :
    Reaches nowMs kinds state { offered with session := after } := by
  refine ⟨_, follows_offer heq hhandles, fun turn hmem => ?_⟩
  rw [List.mem_singleton.mp hmem]
  exact hkind

/-- A refused packet other than a datagram leaves the session alone. -/
theorem Reaches.of_refused (heq : state.offer packet = (false, offered))
    (hkind : packet.kind ∈ kinds) (hdatagram : packet.kind ≠ .datagram) :
    Reaches nowMs kinds state offered := by
  have hoffer : Reaches nowMs kinds state { offered with session := state.session } :=
    .of_offer heq (.refused hdatagram) hkind
  rwa [← session_offer heq] at hoffer

end Reaches

/-! ## The stages -/

variable {now : Instant}

section Moves

variable [CongestionControl C]

/-- A move is a turn or a silent step. -/
theorem Move.reaches {stage : Stage} (hmove : Move now nowMs start stage state) :
    Reaches nowMs [stage.kind] start state := by
  -- The session of the offered state is the one before the offer.
  have hturn : ∀ {packet answer offered} {f : SequenceSession C → SequenceSession C},
      start.offer packet = (answer, offered) →
      start.session.Handles nowMs packet answer (f start.session) → packet.kind = stage.kind →
      Reaches nowMs [stage.kind] start (offered.update f) := by
    intro packet answer offered f hoffer hhandles hkind
    have hoffered := Reaches.of_offer hoffer hhandles (List.mem_singleton.mpr hkind)
    rwa [← session_offer hoffer] at hoffered
  cases hmove with
  | ping hoffer => exact hturn hoffer (.ping now (some now) now) rfl
  | datagram hqueue hoffer => exact hturn hoffer (.datagram hqueue now _) rfl
  | lost hqueue hoffer => exact hturn hoffer (.lost hqueue) rfl
  | @fragment _ id msg idx f offered g hget hkind hpicks hoffer hout hframe =>
      obtain ⟨⟨_, _, houtgoing⟩, hkept⟩ := fragment_spec start.session msg idx now hout hframe
      refine hturn hoffer (.data hget idx ?_ ?_) hkind.symm
      · exact sameOutgoing_insert hget houtgoing
          ((hpicks.ackView _).trans (ackView_markFragmentSent _ _ _ _ _ _ _))
      · exact congrArg (fun frame => frame.2.1) hkept
  | ack howed hoffer => exact hturn hoffer (.ack _ _) rfl
  | nack hget hnack hoffer => exact hturn hoffer (.nack hget hnack) rfl
  | refused hoffer hkind hdatagram =>
      exact .of_refused hoffer (List.mem_singleton.mpr hkind) hdatagram
  | schedule scheduler => exact .of_silent (.schedule scheduler)
  | noAck hnone => exact .of_silent (.noAck hnone)
  | noNack id => exact .of_silent (.noNack id)

omit [CongestionControl C] in
theorem Reaches.mono {kinds more : List PacketKind} (h : Reaches nowMs kinds start state)
    (hsub : kinds ⊆ more) : Reaches nowMs more start state := by
  obtain ⟨turns, hfollows, hkinds⟩ := h
  exact ⟨turns, hfollows, fun turn hmem => hsub (hkinds turn hmem)⟩

theorem Moves.reaches {stages : List Stage} {kinds : List PacketKind}
    (hmoves : Moves now nowMs stages start state)
    (hkinds : ∀ stage ∈ stages, stage.kind ∈ kinds) : Reaches nowMs kinds start state :=
  hmoves.invariant (Reaches nowMs kinds start) (fun hstage hmove hreaches =>
    hreaches.trans (hmove.reaches.mono (List.cons_subset.mpr ⟨hkinds _ hstage, nofun⟩)))
    (.refl start)

end Moves

/-- The turns of a flush, stage by stage: every stage offers packets of its kind only. -/
def Staged [FloatOps] [CongestionControl C] (nowMs : Int) (now : Instant) (state : FlushState C)
    (pings datagrams fragments acks nacks : List (Turn C)) : Prop :=
  let pinged := state.flushPing now nowMs
  let emptied := pinged.flushQueue now
  let sent := emptied.flushFragments now
  let acked := sent.flushPendingAcks now
  Through nowMs [.ping] state pings pinged ∧
    Through nowMs [.datagram] pinged datagrams emptied ∧
    Through nowMs [.data] emptied fragments sent ∧
    Through nowMs [.ack] sent acks acked ∧
    Through nowMs [.nack] acked nacks (acked.flushPendingNacks now)

/-- A flush is a sequence of turns. -/
theorem exists_staged [FloatOps] [CongestionControl C] (nowMs : Int) (now : Instant)
    (state : FlushState C) :
    ∃ pings datagrams fragments acks nacks,
      Staged nowMs now state pings datagrams fragments acks nacks := by
  have hpings : Reaches nowMs [.ping] state (state.flushPing now nowMs) :=
    (flushPing_moves state now nowMs).reaches (by decide)
  unfold Staged
  dsimp only
  generalize state.flushPing now nowMs = pinged at hpings ⊢
  have hdatagrams : Reaches nowMs [.datagram] pinged (pinged.flushQueue now) :=
    (flushQueue_moves pinged).reaches (by decide)
  generalize pinged.flushQueue now = emptied at hdatagrams ⊢
  have hfragments : Reaches nowMs [.data] emptied (emptied.flushFragments now) :=
    (flushFragments_moves emptied).reaches (by decide)
  generalize emptied.flushFragments now = sent at hfragments ⊢
  have hacks : Reaches nowMs [.ack] sent (sent.flushPendingAcks now) :=
    (flushPendingAcks_moves sent).reaches (by decide)
  generalize sent.flushPendingAcks now = acked at hacks ⊢
  obtain ⟨pings, hpings⟩ := hpings
  obtain ⟨datagrams, hdatagrams⟩ := hdatagrams
  obtain ⟨fragments, hfragments⟩ := hfragments
  obtain ⟨acks, hacks⟩ := hacks
  obtain ⟨nacks, hnacks⟩ : Reaches nowMs [.nack] acked (acked.flushPendingNacks now) :=
    (flushPendingNacks_moves acked).reaches (by decide)
  exact ⟨pings, datagrams, fragments, acks, nacks, hpings, hdatagrams, hfragments, hacks, hnacks⟩

theorem Staged.follows [FloatOps] [CongestionControl C]
    {pings datagrams fragments acks nacks : List (Turn C)}
    (h : Staged nowMs now state pings datagrams fragments acks nacks) :
    Follows nowMs state (pings ++ datagrams ++ fragments ++ acks ++ nacks)
      (state.flushAll now nowMs) := by
  obtain ⟨hpings, hdatagrams, hfragments, hacks, hnacks⟩ := h
  have hfollows := (((hpings.1.trans hdatagrams.1).trans hfragments.1).trans hacks.1).trans
    hnacks.1
  rw [flushAll_stages]
  generalize ((((state.flushPing now nowMs).flushQueue now).flushFragments now).flushPendingAcks
    now).flushPendingNacks now = last at hfollows ⊢
  obtain ⟨appLimited, hlimited⟩ := detectAppLimited_eq last.session
  rw [update, hlimited]
  exact hfollows.silent (.appLimited appLimited)

end FlushState

namespace SequenceSession

/-- The packets of a flush are those of its turns that the transport takes. -/
theorem flushPackets_walk [FloatOps] [CongestionControl C] (session : SequenceSession C)
    (now : Instant) (nowMs : Int) (answers : List Bool) :
    ∃ turns, session.Walk nowMs turns (session.flushPackets now nowMs answers).1 ∧
      (session.flushPackets now nowMs answers).2 = takenPackets turns := by
  obtain ⟨pings, datagrams, fragments, acks, nacks, hstaged⟩ :=
    FlushState.exists_staged nowMs now ⟨session, answers, []⟩
  have hfollows := hstaged.follows
  unfold flushPackets
  dsimp only
  generalize FlushState.flushAll ⟨session, answers, []⟩ now nowMs = flushed at hfollows ⊢
  exact ⟨_, hfollows.walk, hfollows.accepted⟩

end SequenceSession

end MerkleTox.Sequenced
