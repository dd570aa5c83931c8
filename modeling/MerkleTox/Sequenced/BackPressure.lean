import Mathlib.Data.List.Perm.Subperm
import MerkleTox.Sequenced.InFlight
import MerkleTox.Sequenced.Retiming

/-! # Back-pressure

What a flush leaves behind when the transport refuses packets, and what the next flush makes
up for. A refused ping is due again, and a refused acknowledgement or NACK stays pending. A
refused datagram is lost.
-/

namespace MerkleTox.Sequenced

open Proto Library

variable {C : Type}

/-! ## What a refusal changes -/

namespace SequenceSession

/-- What is still to be sent, and the account of what is in flight. -/
def outlook (session : SequenceSession C) :=
  (session.outgoing, session.inFlight, session.pendingAcks, session.pendingNacks,
    session.datagramQueue)

/-- A refused packet changes nothing, unless it is a datagram, which leaves the queue. -/
theorem Handles.outlook_eq_iff {nowMs : Int} {session after : SequenceSession C}
    {packet : Packet} (h : session.Handles nowMs packet false after) :
    after.outlook = session.outlook ↔ packet.kind ≠ .datagram := by
  cases h with
  | @lost messageType data queue hqueue =>
      refine ⟨fun heq => ?_, fun hkind => absurd rfl hkind⟩
      have hsame : queue = session.datagramQueue := congrArg (fun view => view.2.2.2.2) heq
      rw [hqueue] at hsame
      exact absurd hsame.symm (List.cons_ne_self _ _)
  | refused hkind => exact ⟨fun _ => hkind, fun _ => rfl⟩

end SequenceSession

/-! ## Acknowledgements and NACKs -/

theorem get_foldl_erase {Value : Type} (ids : List MessageId) (pending : FlatMap MessageId Value)
    (id : MessageId) : (ids.foldl AssocMap.erase pending).get id =
      if id ∈ ids then none else pending.get id := by
  induction ids generalizing pending with
  | nil => rfl
  | cons first ids ih =>
      rw [List.foldl_cons, ih]
      by_cases hfirst : id = first
      · simp [hfirst]
      · simp [hfirst, AssocMap.get_erase_of_ne]

namespace SequenceSession

variable (session : SequenceSession C)

/-- The ids whose acknowledgement is due, in the order in which they are sent. -/
def dueAcks (now : Instant) : List MessageId :=
  (session.pendingAcks.entries.filter fun entry => decide (2 ≤ entry.2.1) ||
    decide (delayedAckTimeout ≤ durationSince now entry.2.2)).map Prod.fst

/-- The ids whose NACK is due. -/
def dueNacks (now : Instant) : List MessageId :=
  (session.pendingNacks.entries.filter fun entry => decide
    (max (session.rtt.srtt / 4) (fromMillis 10) ≤ durationSince now entry.2)).map Prod.fst

/-- The acknowledgement that is owed for an id. -/
def ackFor (id : MessageId) : Option Packet :=
  (FlushState.owedAck session session.currentRwnd id).map .ack

/-- The NACK of the holes of a message. -/
def nackFor (id : MessageId) : Option Packet :=
  ((session.incoming.get id).bind fun reassembler =>
    reassembler.createNack reassembler.buffer.baseIndex).map .nack

/-- Nothing is pending any more for some of the acknowledgements and NACKs. -/
def settled (acks nacks : List MessageId) : SequenceSession C :=
  { session with
    pendingAcks := acks.foldl AssocMap.erase session.pendingAcks
    pendingNacks := (acks ++ nacks).foldl AssocMap.erase session.pendingNacks }

end SequenceSession

namespace FlushState

/-- Offers what is owed for one id after the other until the transport refuses. -/
def sendEach (owed : MessageId → Option Packet)
    (drop : SequenceSession C → MessageId → SequenceSession C) :
    List MessageId → FlushState C → FlushState C
  | [], state => state
  | id :: ids, state =>
      match owed id with
      | none => sendEach owed drop ids (state.update fun session => drop session id)
      | some packet =>
          match state.offer packet with
          | (true, state) => sendEach owed drop ids (state.update fun session => drop session id)
          | (false, state) => state

variable {state : FlushState C}

/-- A transport that has nothing to answer any more takes everything. -/
theorem answers_offer {packet : Packet} {answer : Bool} {offered : FlushState C}
    (heq : state.offer packet = (answer, offered)) (hanswers : state.answers = []) :
    answer = true ∧ offered.answers = [] := by
  unfold offer at heq
  rw [hanswers] at heq
  cases heq
  exact ⟨rfl, rfl⟩

/-- Up to some id everything owed is sent, and nothing from it on; a transport that refuses
nothing gets everything. -/
theorem sendEach_spec (owed : MessageId → Option Packet)
    (drop : SequenceSession C → MessageId → SequenceSession C) (ids : List MessageId)
    (state : FlushState C) :
    ∃ done rest, ids = done ++ rest ∧
      (sendEach owed drop ids state).accepted = state.accepted ++ done.filterMap owed ∧
      (sendEach owed drop ids state).session = done.foldl drop state.session ∧
      (state.answers = [] → rest = [] ∧ (sendEach owed drop ids state).answers = []) := by
  induction ids generalizing state with
  | nil => exact ⟨[], [], rfl, (List.append_nil _).symm, rfl, fun h => ⟨rfl, h⟩⟩
  | cons id ids ih =>
      unfold sendEach
      split
      next howed =>
        obtain ⟨done, rest, rfl, haccepted, hsession, hall⟩ :=
          ih (state.update fun session => drop session id)
        refine ⟨id :: done, rest, rfl, ?_, hsession, hall⟩
        rw [haccepted, List.filterMap_cons_none howed]
        rfl
      next packet howed =>
        cases hoffer : state.offer packet with
        | mk answer offered =>
            cases answer with
            | true =>
                obtain ⟨done, rest, rfl, haccepted, hsession, hall⟩ :=
                  ih (offered.update fun session => drop session id)
                refine ⟨id :: done, rest, rfl, ?_, ?_, fun h => hall (answers_offer hoffer h).2⟩
                · dsimp only
                  rw [haccepted, List.filterMap_cons_some howed]
                  exact (congrArg (· ++ done.filterMap owed) (accepted_offer hoffer)).trans
                    (List.append_assoc _ _ _)
                · dsimp only
                  rw [hsession, List.foldl_cons, ← session_offer hoffer]
                  rfl
            | false =>
                refine ⟨[], id :: ids, rfl, accepted_offer hoffer, session_offer hoffer, ?_⟩
                exact fun h => absurd (answers_offer hoffer h).1 Bool.false_ne_true

variable {session : SequenceSession C}

theorem sendAcks_eq (rwnd : Nat) (ids : List MessageId) (state : FlushState C)
    (hincoming : state.session.incoming = session.incoming)
    (hcompleted : state.session.completedIncoming = session.completedIncoming) :
    sendAcks rwnd ids state =
      sendEach (fun id => (owedAck session rwnd id).map .ack) (fun session id =>
        clearPending id session) ids state := by
  induction ids generalizing state with
  | nil => rfl
  | cons id ids ih =>
      have howed : owedAck state.session rwnd id = owedAck session rwnd id := by
        unfold owedAck
        rw [hincoming, hcompleted]
      unfold sendAcks sendEach
      rw [howed]
      cases owedAck session rwnd id with
      | none => exact ih _ hincoming hcompleted
      | some ack =>
          dsimp only [Option.map_some]
          cases hoffer : state.offer (.ack ack) with
          | mk answer offered =>
              cases answer with
              | true =>
                  rw [← session_offer hoffer] at hincoming hcompleted
                  exact ih _ hincoming hcompleted
              | false => rfl

theorem sendNacks_eq (ids : List MessageId) (state : FlushState C)
    (hincoming : state.session.incoming = session.incoming) :
    sendNacks ids state = sendEach session.nackFor
      (fun session id => { session with pendingNacks := session.pendingNacks.erase id }) ids
      state := by
  induction ids generalizing state with
  | nil => rfl
  | cons id ids ih =>
      unfold sendNacks sendEach SequenceSession.nackFor
      rw [hincoming]
      cases (session.incoming.get id).bind fun reassembler =>
          reassembler.createNack reassembler.buffer.baseIndex with
      | none => exact ih _ hincoming
      | some nack =>
          dsimp only [Option.map_some]
          cases hoffer : state.offer (.nack nack) with
          | mk answer offered =>
              cases answer with
              | true =>
                  rw [← session_offer hoffer] at hincoming
                  exact ih _ hincoming
              | false => rfl

theorem foldl_clearPending (ids : List MessageId) (session : SequenceSession C) :
    ids.foldl (fun session id => clearPending id session) session = session.settled ids [] := by
  induction ids generalizing session with
  | nil => rfl
  | cons id ids ih =>
      rw [List.foldl_cons, ih]
      simp [SequenceSession.settled, clearPending]

theorem foldl_dropNack (ids : List MessageId) (session : SequenceSession C) :
    ids.foldl (fun session id => { session with pendingNacks := session.pendingNacks.erase id })
      session = session.settled [] ids := by
  induction ids generalizing session with
  | nil => rfl
  | cons id ids ih =>
      rw [List.foldl_cons, ih]
      simp [SequenceSession.settled]

theorem settled_settled (acks nacks : List MessageId) (session : SequenceSession C) :
    (session.settled acks []).settled [] nacks = session.settled acks nacks := by
  simp [SequenceSession.settled]

/-- The stages of the acknowledgements and of the NACKs together. -/
theorem control_spec (state : FlushState C) (now : Instant) :
    ∃ acks nacks moreAcks moreNacks,
      state.session.dueAcks now = acks ++ moreAcks ∧
      (state.session.settled acks []).dueNacks now = nacks ++ moreNacks ∧
      ((state.flushPendingAcks now).flushPendingNacks now).session =
        state.session.settled acks nacks ∧
      ((state.flushPendingAcks now).flushPendingNacks now).accepted =
        state.accepted ++ acks.filterMap state.session.ackFor ++
          nacks.filterMap state.session.nackFor ∧
      (state.answers = [] → moreAcks = [] ∧ moreNacks = []) := by
  obtain ⟨acks, moreAcks, hdueAcks, haccepted, hsession, hall⟩ :=
    sendEach_spec state.session.ackFor (fun session id => clearPending id session)
      (state.session.dueAcks now) state
  have hacks : state.flushPendingAcks now = sendEach state.session.ackFor
      (fun session id => clearPending id session) (state.session.dueAcks now) state :=
    sendAcks_eq _ _ state rfl rfl
  rw [foldl_clearPending] at hsession
  rw [← hacks] at haccepted hsession hall
  generalize state.flushPendingAcks now = acked at haccepted hsession hall ⊢
  obtain ⟨nacks, moreNacks, hdueNacks, haccepted', hsession', hall'⟩ :=
    sendEach_spec state.session.nackFor
      (fun session id => { session with pendingNacks := session.pendingNacks.erase id })
      (acked.session.dueNacks now) acked
  have hnacks : acked.flushPendingNacks now = sendEach state.session.nackFor
      (fun session id => { session with pendingNacks := session.pendingNacks.erase id })
      (acked.session.dueNacks now) acked := sendNacks_eq _ acked (hsession ▸ rfl)
  rw [← hnacks] at haccepted' hsession'
  rw [foldl_dropNack, hsession, settled_settled] at hsession'
  rw [haccepted] at haccepted'
  rw [hsession] at hdueNacks
  refine ⟨acks, nacks, moreAcks, moreNacks, hdueAcks, hdueNacks, hsession', haccepted', ?_⟩
  intro hanswers
  obtain ⟨hnone, hanswers⟩ := hall hanswers
  exact ⟨hnone, (hall' hanswers).1⟩

end FlushState

/-! ## What the next flush makes up for -/

theorem subperm_filterMap {α β : Type} {first second : List α} (h : first.Subperm second)
    (f : α → Option β) : (first.filterMap f).Subperm (second.filterMap f) := by
  obtain ⟨list, hperm, hsub⟩ := h
  exact ⟨list.filterMap f, hperm.filterMap f, hsub.filterMap f⟩

namespace SequenceSession

variable {session later : SequenceSession C} {now : Instant} {id : MessageId}

theorem mem_dueAcks : id ∈ session.dueAcks now ↔
    ∃ pending, session.pendingAcks.get id = some pending ∧
      (2 ≤ pending.1 ∨ delayedAckTimeout ≤ durationSince now pending.2) := by
  rw [dueAcks, AssocMap.mem_keysWhere]
  simp only [Bool.or_eq_true, decide_eq_true_eq]

theorem mem_dueNacks : id ∈ session.dueNacks now ↔
    ∃ since, session.pendingNacks.get id = some since ∧
      max (session.rtt.srtt / 4) (fromMillis 10) ≤ durationSince now since := by
  rw [dueNacks, AssocMap.mem_keysWhere]
  simp only [decide_eq_true_eq]

theorem pendingAcks_settled (acks nacks : List MessageId) (id : MessageId) :
    (session.settled acks nacks).pendingAcks.get id =
      if id ∈ acks then none else session.pendingAcks.get id := get_foldl_erase acks _ id

theorem pendingNacks_settled (acks nacks : List MessageId) (id : MessageId) :
    (session.settled acks nacks).pendingNacks.get id =
      if id ∈ acks ++ nacks then none else session.pendingNacks.get id :=
  get_foldl_erase (acks ++ nacks) _ id

section MadeUp

variable {acks nacks moreAcks : List MessageId}

theorem mem_dueAcks_later (hpending : later.pendingAcks = (session.settled acks nacks).pendingAcks) :
    id ∈ later.dueAcks now ↔ id ∈ session.dueAcks now ∧ id ∉ acks := by
  rw [mem_dueAcks, mem_dueAcks, hpending, pendingAcks_settled]
  split
  next hdone => simp [hdone]
  next hopen => simp [hopen]

/-- An acknowledgement that is due is sent now or due later. -/
theorem dueAcks_subperm (hpending : later.pendingAcks = (session.settled acks nacks).pendingAcks) :
    (session.dueAcks now).Subperm (acks ++ later.dueAcks now) := by
  refine List.Nodup.subperm (session.pendingAcks.nodup_keysWhere _) fun id hdue => ?_
  rw [List.mem_append, mem_dueAcks_later hpending]
  by_cases hdone : id ∈ acks
  · exact .inl hdone
  · exact .inr ⟨hdue, hdone⟩

/-- So is a NACK, when the acknowledgements that are due have been sent. -/
theorem dueNacks_subperm (hacks : session.dueAcks now = acks ++ moreAcks)
    (hpendingAcks : later.pendingAcks = (session.settled acks nacks).pendingAcks)
    (hpendingNacks : later.pendingNacks = (session.settled acks nacks).pendingNacks)
    (hrtt : later.rtt = session.rtt) :
    ((session.settled (session.dueAcks now) []).dueNacks now).Subperm
      (nacks ++ (later.settled (later.dueAcks now) []).dueNacks now) := by
  refine List.Nodup.subperm (AssocMap.nodup_keysWhere _ _) fun id hdue => ?_
  rw [mem_dueNacks, pendingNacks_settled, List.append_nil] at hdue
  obtain ⟨since, hget, htime⟩ := hdue
  split at hget
  next => cases hget
  next hopen =>
    by_cases hdone : id ∈ nacks
    · exact List.mem_append_left _ hdone
    · refine List.mem_append_right _ (mem_dueNacks.mpr ⟨since, ?_, ?_⟩)
      · rw [pendingNacks_settled, List.append_nil, if_neg, hpendingNacks, pendingNacks_settled,
          if_neg, hget]
        · rw [List.mem_append]
          rintro (hacked | hnacked)
          · exact hopen (hacks ▸ List.mem_append_left _ hacked)
          · exact hdone hnacked
        · exact fun hlater => hopen ((mem_dueAcks_later hpendingAcks).mp hlater).1
      · exact hrtt ▸ htime

end MadeUp

theorem ackFor_congr (h : later.receiveView = session.receiveView) :
    later.ackFor = session.ackFor := by
  simp only [receiveView, Prod.mk.injEq] at h
  unfold ackFor FlushState.owedAck currentRwnd
  simp only [h]

theorem nackFor_congr (h : later.receiveView = session.receiveView) :
    later.nackFor = session.nackFor := by
  simp only [receiveView, Prod.mk.injEq] at h
  unfold nackFor
  simp only [h]

end SequenceSession

/-! ## Two flushes -/

namespace FlushState

variable {state : FlushState C} {now : Instant} {nowMs : Int}
variable {start : FlushState C}

/-- A stage whose turns all end in acceptance refuses nothing. -/
theorem Follows.granted {turns : List (Turn C)} (h : Follows nowMs start turns state)
    (hall : ∀ turn ∈ turns, turn.answer = true) : start.refusals ≤ state.refusals := by
  have htaken : (start.answers.take turns.length).count false = 0 := by
    refine List.count_eq_zero.mpr fun hmem => ?_
    obtain ⟨index, hlt, hget⟩ := List.mem_iff_getElem.mp hmem
    rw [List.length_take] at hlt
    have hturn : turns[index]? = some turns[index] := List.getElem?_eq_getElem (by omega)
    have hanswer := h.answered index _ hturn
    rw [List.getElem_take] at hget
    rw [List.getElem?_eq_getElem (by omega), hget, hall _ (List.getElem_mem _)] at hanswer
    exact Bool.false_ne_true hanswer.symm
  unfold refusals
  rw [h.answers, ← List.take_append_drop turns.length start.answers, List.count_append, htaken,
    Nat.zero_add, List.take_append_drop]

/-- A ping that is refused is left to be sent, and nothing else is different. -/
theorem flushPing_beside (session : SequenceSession C) (now : Instant) (nowMs : Int)
    (answers : List Bool) :
    let flushed := (⟨session, answers, []⟩ : FlushState C).flushPing now nowMs
    ∃ sent other, (⟨session, [], []⟩ : FlushState C).flushPing now nowMs =
        flushed.beside sent other ∧
      (sent = [] ∨ sent = [.ping nowMs] ∧ flushed.session = session ∧
        session.pingInterval ≤ durationSince now session.lastPing) := by
  intro flushed
  by_cases hdue : session.pingInterval ≤ durationSince now session.lastPing
  · have hping : ∀ answers, (⟨session, answers, []⟩ : FlushState C).flushPing now nowMs =
        match (⟨session, answers, []⟩ : FlushState C).offer (.ping nowMs) with
        | (true, state) => state.update fun session =>
            { session with lastPing := now, lastPingSent := some now, lastActivity := now }
        | (false, state) => state := fun _ => if_pos hdue
    rw [show flushed = _ from hping answers, hping []]
    let pinged : SequenceSession C :=
      { session with lastPing := now, lastPingSent := some now, lastActivity := now }
    match answers with
    | [] => exact ⟨[], pinged, rfl, .inl rfl⟩
    | true :: _ => exact ⟨[], pinged, rfl, .inl rfl⟩
    | false :: _ => exact ⟨[.ping nowMs], pinged, rfl, .inr ⟨rfl, rfl, hdue⟩⟩
  · have hping : ∀ answers, (⟨session, answers, []⟩ : FlushState C).flushPing now nowMs =
        ⟨session, answers, []⟩ := fun _ => if_neg hdue
    rw [show flushed = _ from hping answers, hping []]
    exact ⟨[], session, rfl, .inl rfl⟩

theorem owing_flushPing (state : FlushState C) (now : Instant) (nowMs : Int) :
    (state.flushPing now nowMs).session.owing = state.session.owing := by
  unfold flushPing
  dsimp only
  split
  next =>
    split
    next offered heq =>
      rw [← session_offer heq]
      rfl
    next offered heq => rw [session_offer heq]
  next => rfl

theorem Moves.answers_eq_nil [CongestionControl C] {stages : List Stage}
    (h : Moves now nowMs stages start state) (hanswers : start.answers = []) :
    state.answers = [] := by
  obtain ⟨turns, hfollows, -⟩ := h.reaches fun _ hmem => List.mem_map_of_mem hmem
  rw [hfollows.answers, hanswers, List.drop_nil]

theorem standing_detectAppLimited [CongestionControl C] (session : SequenceSession C) :
    (detectAppLimited session).standing = session.standing := by
  obtain ⟨appLimited, heq⟩ := detectAppLimited_eq session
  rw [heq]
  rfl

end FlushState

namespace SequenceSession

theorem isEmpty_outgoing_congr {first second : SequenceSession C}
    (h : first.SameOutgoing second) : first.outgoing.isEmpty = second.outgoing.isEmpty := by
  have hsize : first.outgoing.size = second.outgoing.size := by
    refine AssocMap.size_eq_of_isSome fun id => ?_
    have hview := congrArg Option.isSome (h id)
    rwa [Option.isSome_map, Option.isSome_map] at hview
  rw [AssocMap.isEmpty, AssocMap.isEmpty, Bool.eq_iff_iff, List.isEmpty_iff_length_eq_zero,
    List.isEmpty_iff_length_eq_zero]
  unfold AssocMap.size at hsize
  rw [hsize]

variable [FloatOps] [CongestionControl C]

/-- A flush up to its acknowledgements. -/
def beforeControl (session : SequenceSession C) (now : Instant) (nowMs : Int)
    (answers : List Bool) : FlushState C :=
  (((⟨session, answers, []⟩ : FlushState C).flushPing now nowMs).flushQueue now).flushFragments
    now

/-- The rest of a flush: what it sends, and what stays pending. -/
theorem flushPackets_control (session : SequenceSession C) (now : Instant) (nowMs : Int)
    (answers : List Bool) :
    let core := session.beforeControl now nowMs answers
    ∃ acks nacks moreAcks moreNacks,
      core.session.dueAcks now = acks ++ moreAcks ∧
      (core.session.settled acks []).dueNacks now = nacks ++ moreNacks ∧
      (session.flushPackets now nowMs answers).1 =
        FlushState.detectAppLimited (core.session.settled acks nacks) ∧
      (session.flushPackets now nowMs answers).2 =
        core.accepted ++ acks.filterMap core.session.ackFor ++
          nacks.filterMap core.session.nackFor ∧
      (core.answers = [] → moreAcks = [] ∧ moreNacks = []) := by
  have hflush : (⟨session, answers, []⟩ : FlushState C).flushAll now nowMs =
      (((session.beforeControl now nowMs answers).flushPendingAcks now).flushPendingNacks
        now).update FlushState.detectAppLimited := FlushState.flushAll_stages _ now nowMs
  unfold flushPackets
  dsimp only
  rw [hflush]
  generalize session.beforeControl now nowMs answers = core
  obtain ⟨acks, nacks, moreAcks, moreNacks, hacks, hnacks, hsession, haccepted, hall⟩ :=
    core.control_spec now
  refine ⟨acks, nacks, moreAcks, moreNacks, hacks, hnacks, ?_, haccepted, hall⟩
  rw [← hsession]
  rfl

theorem beforeControl_moves (session : SequenceSession C) (now : Instant) (nowMs : Int)
    (answers : List Bool) :
    FlushState.Moves now nowMs [.datagrams, .probe, .fragments]
      ((⟨session, answers, []⟩ : FlushState C).flushPing now nowMs)
      (session.beforeControl now nowMs answers) :=
  ((FlushState.flushQueue_moves _).mono (by decide)).trans
    ((FlushState.flushFragments_moves _).mono (by decide))

variable {answers : List Bool} {session : SequenceSession C}

/-- A flush that refuses no datagram and no fragment, and the one that refuses nothing at
all: they agree but for the timers and a refused ping. -/
theorem beforeControl_beside {now : Instant} {nowMs : Int}
    (hqueue : ((⟨session, answers, []⟩ : FlushState C).flushPing now nowMs).refusals ≤
      (((⟨session, answers, []⟩ : FlushState C).flushPing now nowMs).flushQueue now).refusals)
    (hfragments :
      (((⟨session, answers, []⟩ : FlushState C).flushPing now nowMs).flushQueue now).refusals ≤
        (session.beforeControl now nowMs answers).refusals) :
    ∃ sent other, session.beforeControl now nowMs [] =
        (session.beforeControl now nowMs answers).beside sent other ∧
      (session.beforeControl now nowMs answers).session.owing = session.owing ∧
      (sent = [] ∨ sent = [.ping nowMs] ∧
        (session.beforeControl now nowMs answers).session.lastPing = session.lastPing ∧
        session.pingInterval ≤ durationSince now session.lastPing) := by
  obtain ⟨sent, other, hping, hsent⟩ := FlushState.flushPing_beside session now nowMs answers
  have howing := FlushState.owing_flushPing (⟨session, answers, []⟩ : FlushState C) now nowMs
  unfold beforeControl at hfragments ⊢
  rw [hping]
  generalize (⟨session, answers, []⟩ : FlushState C).flushPing now nowMs = pinged at *
  obtain ⟨changed, hcore, hkept⟩ :=
    FlushState.flushQueue_flushFragments_beside sent other hqueue hfragments
  refine ⟨sent, changed, hcore, (congrArg Prod.fst hkept).trans howing, ?_⟩
  refine hsent.imp_right fun ⟨hping, hsession, hdue⟩ => ⟨hping, ?_, hdue⟩
  exact (congrArg Prod.snd hkept).trans (congrArg lastPing hsession)

/-- Nothing is refused by a transport without answers. -/
theorem owing_beforeControl (session : SequenceSession C) (now : Instant) (nowMs : Int) :
    (session.beforeControl now nowMs []).session.owing = session.owing := by
  have hping := FlushState.flushPing_moves (⟨session, [], []⟩ : FlushState C) now nowMs
  have hnone : ((⟨session, [], []⟩ : FlushState C).flushPing now nowMs).refusals = 0 := by
    unfold FlushState.refusals
    rw [hping.answers_eq_nil rfl, List.count_nil]
  have hless : (((⟨session, [], []⟩ : FlushState C).flushPing now nowMs).flushQueue now).refusals ≤
      0 := hnone ▸ (FlushState.flushQueue_moves _).refusals_le
  obtain ⟨-, -, -, howing, -⟩ := @beforeControl_beside C _ _ [] session now nowMs
    (hnone ▸ Nat.zero_le _) (hless.trans (Nat.zero_le _))
  exact howing

/-- What a transport without refusals gets. -/
theorem packets_flushPackets_nil (session : SequenceSession C) (now : Instant) (nowMs : Int) :
    let core := session.beforeControl now nowMs []
    (session.flushPackets now nowMs []).2 = core.accepted ++
      (core.session.dueAcks now).filterMap core.session.ackFor ++
      ((core.session.settled (core.session.dueAcks now) []).dueNacks now).filterMap
        core.session.nackFor := by
  have hmoves := session.beforeControl_moves now nowMs []
  have hping := FlushState.flushPing_moves (⟨session, [], []⟩ : FlushState C) now nowMs
  obtain ⟨acks, nacks, moreAcks, moreNacks, hacks, hnacks, -, hpackets, hall⟩ :=
    session.flushPackets_control now nowMs []
  obtain ⟨rfl, rfl⟩ := hall (hmoves.answers_eq_nil (hping.answers_eq_nil rfl))
  rw [List.append_nil] at hacks hnacks
  rw [hpackets, ← hnacks, ← hacks]

/-- After a flush that refuses no datagram and no fragment the next one makes up for what a
flush without refusals would have sent. -/
theorem flushPackets_nil_subperm {now : Instant} {nowMs : Int}
    (hqueue : ((⟨session, answers, []⟩ : FlushState C).flushPing now nowMs).refusals ≤
      (((⟨session, answers, []⟩ : FlushState C).flushPing now nowMs).flushQueue now).refusals)
    (hfragments :
      (((⟨session, answers, []⟩ : FlushState C).flushPing now nowMs).flushQueue now).refusals ≤
        (session.beforeControl now nowMs answers).refusals) :
    (session.flushPackets now nowMs []).2.Subperm ((session.flushPackets now nowMs answers).2 ++
      ((session.flushPackets now nowMs answers).1.flushPackets now nowMs []).2) := by
  obtain ⟨sent, other, hbeside, howing, hsent⟩ := beforeControl_beside hqueue hfragments
  obtain ⟨acks, nacks, moreAcks, -, hacks, -, hafter, hpackets, -⟩ :=
    session.flushPackets_control now nowMs answers
  obtain ⟨hreceive, hsame, -⟩ := session.flushPackets_spec now nowMs answers
  rw [session.packets_flushPackets_nil now nowMs, hbeside]
  generalize session.beforeControl now nowMs answers = core at *
  rw [hpackets]
  generalize (session.flushPackets now nowMs answers).1 = again at *
  have hstanding := congrArg SequenceSession.standing hafter
  rw [FlushState.standing_detectAppLimited] at hstanding
  have hagain : again.owing = (core.session.settled acks nacks).owing := congrArg Prod.fst hstanding
  rw [again.packets_flushPackets_nil now nowMs]
  -- A refused ping is due again.
  have hpings : sent.Subperm (again.beforeControl now nowMs []).accepted := by
    rcases hsent with rfl | ⟨rfl, hlast, hdue⟩
    · exact List.nil_subperm
    · have hping : again.lastPing = session.lastPing := (congrArg Prod.snd hstanding).trans hlast
      have hincoming : again.incoming = session.incoming := congrArg (fun view => view.2.1) hreceive
      have hinterval : again.pingInterval = session.pingInterval := by
        unfold pingInterval
        rw [isEmpty_outgoing_congr hsame, hincoming]
      have hpinged : ((⟨again, [], []⟩ : FlushState C).flushPing now nowMs).accepted =
          [.ping nowMs] := by
        unfold FlushState.flushPing
        rw [← hinterval, ← hping] at hdue
        rw [if_pos hdue]
        rfl
      rw [← hpinged]
      exact (again.beforeControl_moves now nowMs []).prefix_accepted.sublist.subperm
  have howed := (again.owing_beforeControl now nowMs).trans hagain
  generalize again.beforeControl now nowMs [] = last at hpings howed ⊢
  have hview : last.session.receiveView = core.session.receiveView := congrArg Prod.fst howed
  have hpendingAcks : last.session.pendingAcks =
      (core.session.settled acks nacks).pendingAcks := congrArg (fun view => view.2.1) howed
  have hpendingNacks : last.session.pendingNacks =
      (core.session.settled acks nacks).pendingNacks := congrArg (fun view => view.2.2.1) howed
  have hrtt : last.session.rtt = core.session.rtt := congrArg (fun view => view.2.2.2) howed
  have hdueAcks := subperm_filterMap
    (@dueAcks_subperm C core.session last.session now acks nacks hpendingAcks) core.session.ackFor
  have hdueNacks := subperm_filterMap (dueNacks_subperm hacks hpendingAcks hpendingNacks hrtt)
    core.session.nackFor
  rw [List.filterMap_append] at hdueAcks hdueNacks
  rw [ackFor_congr hview, nackFor_congr hview]
  change (sent ++ core.accepted ++ (core.session.dueAcks now).filterMap core.session.ackFor ++
    ((core.session.settled (core.session.dueAcks now) []).dueNacks now).filterMap
      core.session.nackFor).Subperm _
  refine List.subperm_ext_iff.mpr fun packet _ => ?_
  have hpingCount := hpings.count_le packet
  have hackCount := hdueAcks.count_le packet
  have hnackCount := hdueNacks.count_le packet
  simp only [List.count_append] at hackCount hnackCount ⊢
  omega

/-- The turns of a flush, as the transport sees them. -/
def FlushTurns (session : SequenceSession C) (now : Instant) (nowMs : Int) (answers : List Bool)
    (turns : List (Turn C)) : Prop :=
  ∃ pings datagrams fragments acks nacks,
    FlushState.Staged nowMs now ⟨session, answers, []⟩ pings datagrams fragments acks nacks ∧
      turns = pings ++ datagrams ++ fragments ++ acks ++ nacks

/-- A refused packet changes nothing that is to be sent if and only if it is no datagram. If
neither datagrams nor fragments are refused, then whatever a transport without refusals would
have got is sent in this flush or in the next. -/
theorem back_pressure (session : SequenceSession C) (now : Instant) (nowMs : Int)
    (answers : List Bool) :
    (∃ turns, session.FlushTurns now nowMs answers turns) ∧
      ∀ turns, session.FlushTurns now nowMs answers turns →
        ((∀ turn ∈ turns, turn.answer = false → turn.after.outlook = turn.before.outlook) ↔
          ∀ turn ∈ turns, turn.answer = false → turn.packet.kind ≠ .datagram) ∧
        ((∀ turn ∈ turns, turn.answer = false →
            turn.packet.kind ≠ .datagram ∧ turn.packet.kind ≠ .data) →
          (session.flushPackets now nowMs []).2.Subperm
            ((session.flushPackets now nowMs answers).2 ++
              ((session.flushPackets now nowMs answers).1.flushPackets now nowMs []).2)) := by
  refine ⟨?_, ?_⟩
  · obtain ⟨pings, datagrams, fragments, acks, nacks, hstaged⟩ :=
      FlushState.exists_staged nowMs now ⟨session, answers, []⟩
    exact ⟨_, pings, datagrams, fragments, acks, nacks, hstaged, rfl⟩
  rintro turns ⟨pings, datagrams, fragments, acks, nacks, hstaged, rfl⟩
  have hwalk := hstaged.follows.walk
  refine ⟨forall_congr' fun turn => forall_congr' fun hmem => forall_congr' fun hanswer => ?_,
    fun hgranted => ?_⟩
  · have hhandles := hwalk.handles hmem
    rw [hanswer] at hhandles
    exact hhandles.outlook_eq_iff
  · obtain ⟨-, ⟨hdatagrams, hdatagramKind⟩, ⟨hfragments, hdataKind⟩, -, -⟩ := hstaged
    refine flushPackets_nil_subperm (hdatagrams.granted fun turn hmem => ?_)
      (hfragments.granted fun turn hmem => ?_)
    · by_contra hanswer
      have hturn := hgranted turn (by simp [hmem]) (Bool.not_eq_true _ ▸ hanswer)
      exact hturn.1 (List.mem_singleton.mp (hdatagramKind turn hmem))
    · by_contra hanswer
      have hturn := hgranted turn (by simp [hmem]) (Bool.not_eq_true _ ▸ hanswer)
      exact hturn.2 (List.mem_singleton.mp (hdataKind turn hmem))

end SequenceSession

/-- A flush of a session of `referenceConfig`. -/
abbrev referenceFlush (session : SequenceSession FixedWindow) (answers : List Bool) :
    SequenceSession FixedWindow × List Packet :=
  @SequenceSession.flushPackets FixedWindow exactFloatOps _ session 1000 0 answers

def queuedDatagram : List Operation := [.call (.sendDatagram .merkleNode [7])]

def queuedMessage : List Operation :=
  [.call (.sendMessage .merkleNode (List.replicate 1300 0) 0)]

/-- The transport takes the ping and refuses what follows: a datagram leaves the queue without
being sent; for a fragment the scheduler has been charged, and the next flush sends nothing. -/
theorem refused_packets_missed :
    (let session := referenceSession queuedDatagram
      let refused := referenceFlush session [true, false]
      (referenceFlush session []).2 = [.ping 0, .datagram .merkleNode [7]] ∧
        refused.2 = [.ping 0] ∧ session.datagramQueue = [(.merkleNode, [7])] ∧
        refused.1.datagramQueue = [] ∧ (referenceFlush refused.1 []).2 = []) ∧
    let session := referenceSession queuedMessage
    let refused := referenceFlush session [true, false]
    (referenceFlush session []).2.map Packet.kind = [.ping, .data] ∧
      refused.2 = [.ping 0] ∧ (referenceFlush refused.1 []).2 = [] := by
  decide +kernel

end MerkleTox.Sequenced
