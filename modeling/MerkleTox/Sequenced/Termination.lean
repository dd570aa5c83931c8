import Mathlib.Algebra.Order.BigOperators.Group.List
import MerkleTox.Library.Loops
import MerkleTox.Sequenced.Readiness
import MerkleTox.Sequenced.Clocked

/-! # Flushing terminates

The main loop of `flush_packets` has no bound of its own. A fragment that timed out is sent again
and returns to the back of the in-flight queue, so the queues alone do not get shorter; but there
it carries the present time, and the timeout is never zero.
-/

namespace MerkleTox.Sequenced

open Proto Library Relation

variable {C : Type}

namespace OutgoingMessage

/-- The in-flight entries that are as old as the timeout of their fragments. -/
def timedOutEntries (msg : OutgoingMessage) (rtt : RttEstimator) (now : Instant) :
    List (Nat × Instant) :=
  msg.inFlightQueue.filter fun entry =>
    decide (rtt.rtoWithBackoff (msg.fragmentState entry.1).rtoBackoff ≤ durationSince now entry.2)

/-- Queued retransmissions, timed-out fragments and fragments never sent. -/
def workLeft (msg : OutgoingMessage) (rtt : RttEstimator) (now : Instant) : Nat :=
  msg.retransmitQueue.length + (msg.timedOutEntries rtt now).length +
    (msg.numFragments - msg.nextFragment)

variable {rtt : RttEstimator} {msg : OutgoingMessage}

theorem timedOutEntries_congr {msg msg' : OutgoingMessage} {now : Instant}
    (hqueue : msg'.inFlightQueue = msg.inFlightQueue)
    (hbackoff : ∀ idx, (msg'.fragmentState idx).rtoBackoff = (msg.fragmentState idx).rtoBackoff) :
    msg'.timedOutEntries rtt now = msg.timedOutEntries rtt now := by
  unfold timedOutEntries
  simp only [hqueue, hbackoff]

section

variable (msg : OutgoingMessage) (idx : Nat) (now : Instant) (delivered : Nat) (lastDelivery :
  Instant) (appLimited : Bool) (size : Nat) (hpos : 0 < rtt.rto)
include hpos

/-- A fragment sent now has not timed out. -/
theorem timedOutEntries_markFragmentSent :
    (msg.markFragmentSent idx now delivered lastDelivery appLimited size).2.timedOutEntries rtt
      now = msg.timedOutEntries rtt now := by
  unfold timedOutEntries
  simp only [SequenceSession.rtoBackoff_markFragmentSent]
  have hqueue : (msg.markFragmentSent idx now delivered lastDelivery appLimited
      size).2.inFlightQueue = msg.inFlightQueue ++ [(idx, now)] := rfl
  have hfresh : ¬ rtt.rtoWithBackoff (msg.fragmentState idx).rtoBackoff ≤ durationSince now now := by
    have htimeout : 0 < rtt.rtoWithBackoff (msg.fragmentState idx).rtoBackoff :=
      Nat.mul_pos hpos (Nat.pow_pos (by decide))
    have hnow : durationSince now now = 0 := by simp [durationSince]
    exact hnow ▸ Nat.not_le.mpr htimeout
  rw [hqueue, List.filter_append, List.filter_cons_of_neg (by simpa using hfresh),
    List.filter_nil, List.append_nil]

theorem workLeft_markFragmentSent :
    (msg.markFragmentSent idx now delivered lastDelivery appLimited size).2.workLeft rtt now =
      msg.workLeft rtt now := by
  unfold workLeft
  rw [timedOutEntries_markFragmentSent msg idx now delivered lastDelivery appLimited size hpos]
  rfl

end

theorem workLeft_popRetransmit (rtt : RttEstimator) (now : Instant)
    (hqueue : msg.retransmitQueue ≠ []) :
    (FlushState.popRetransmit msg).workLeft rtt now < msg.workLeft rtt now := by
  obtain ⟨idx, rest, hcons⟩ := List.exists_cons_of_ne_nil hqueue
  have hpopped : FlushState.popRetransmit msg = { msg with
      retransmitQueue := rest, retransmitBitset := (msg.retransmitBitset.unset idx).2 } := by
    unfold FlushState.popRetransmit
    rw [hcons]
  rw [hpopped, workLeft, workLeft, hcons, List.length_cons]
  have hsame : { msg with retransmitQueue := rest, retransmitBitset :=
      (msg.retransmitBitset.unset idx).2 }.timedOutEntries rtt now =
        msg.timedOutEntries rtt now := timedOutEntries_congr rfl fun _ => rfl
  rw [hsame]
  dsimp only
  omega

/-- A higher back-off lengthens the timeout, so no entry becomes due. -/
theorem timedOutEntries_popInFlight (msg : OutgoingMessage) (idx : Nat) (rtt : RttEstimator)
    (now : Instant) :
    ((FlushState.popInFlight idx msg).timedOutEntries rtt now).length ≤
      (msg.inFlightQueue.tail.filter fun entry => decide
        (rtt.rtoWithBackoff (msg.fragmentState entry.1).rtoBackoff ≤
          durationSince now entry.2)).length := by
  unfold timedOutEntries
  refine List.Sublist.length_le (List.monotone_filter_right _ ?_)
  intro entry hdue
  rw [decide_eq_true_eq] at hdue ⊢
  refine Nat.le_trans (Nat.mul_le_mul_left _ (Nat.pow_le_pow_right (by decide) ?_)) hdue
  refine Nat.le_min.mpr ⟨Nat.le_trans (Nat.min_le_left _ _) ?_, Nat.min_le_right _ _⟩
  by_cases heq : entry.1 = idx
  · subst heq
    unfold FlushState.popInFlight fragmentState
    dsimp only
    by_cases hlt : entry.1 < msg.fragmentStates.length
    · rw [List.getElem?_set_self hlt]
      exact Nat.le_succ _
    · rw [List.set_eq_of_length_le (Nat.not_lt.mp hlt)]
  · exact (SequenceSession.rtoBackoff_popInFlight heq).ge

theorem workLeft_popInFlight {idx : Nat} {sent : Instant} {rest : List (Nat × Instant)}
    {now : Instant} (hqueue : msg.inFlightQueue = (idx, sent) :: rest)
    (hdue : rtt.rtoWithBackoff (msg.fragmentState idx).rtoBackoff ≤ durationSince now sent) :
    (FlushState.popInFlight idx msg).workLeft rtt now < msg.workLeft rtt now := by
  have hfewer := timedOutEntries_popInFlight msg idx rtt now
  have hfront : msg.timedOutEntries rtt now = (idx, sent) ::
      msg.inFlightQueue.tail.filter fun entry => decide
        (rtt.rtoWithBackoff (msg.fragmentState entry.1).rtoBackoff ≤ durationSince now entry.2) := by
    unfold timedOutEntries
    rw [hqueue, List.filter_cons_of_pos (by simpa using hdue), List.tail_cons]
  unfold workLeft
  rw [hfront, List.length_cons]
  have hretransmit : (FlushState.popInFlight idx msg).retransmitQueue = msg.retransmitQueue := rfl
  have hnum : (FlushState.popInFlight idx msg).numFragments = msg.numFragments := rfl
  have hnext : (FlushState.popInFlight idx msg).nextFragment = msg.nextFragment := rfl
  rw [hretransmit, hnum, hnext]
  omega

theorem workLeft_advanceNext (rtt : RttEstimator) (now : Instant)
    (hnext : msg.nextFragment < msg.numFragments) :
    (FlushState.advanceNext msg).workLeft rtt now < msg.workLeft rtt now := by
  have hsame : (FlushState.advanceNext msg).timedOutEntries rtt now = msg.timedOutEntries rtt now :=
    timedOutEntries_congr rfl fun _ => rfl
  unfold workLeft
  rw [hsame]
  unfold FlushState.advanceNext
  dsimp only
  omega

end OutgoingMessage

/-- The measure of the main loop. -/
def SequenceSession.workLeft (session : SequenceSession C) (now : Instant) : Nat :=
  session.outgoing.total fun _ msg => msg.workLeft session.rtt now

namespace FlushState

variable [CongestionControl C]

/-- One iteration of the datagram loop. -/
def datagramRound (now : Instant) (state : FlushState C) : FlushState C ⊕ FlushState C :=
  match state.session.datagramQueue with
  | [] => .inl state
  | (messageType, data) :: queue =>
      if now < state.session.nextPacingTime then .inl state
      else
        let state := state.update fun session => { session with datagramQueue := queue }
        match state.offer (.datagram messageType data) with
        | (false, state) => .inl state
        | (true, state) => .inr <| state.update fun session =>
            let gap := CongestionControl.pacingGap session.congestionControl (data.length + 10)
            { session with
              lastActivity := now
              nextPacingTime := max session.nextPacingTime now + (gap : Nat) }

/-- One iteration of the main loop. -/
def dataRound (now : Instant) (current : Bool × FlushState C) :
    (Bool × FlushState C) ⊕ (Bool × FlushState C) :=
  let (anyDataSent, state) := current
  let (next, scheduler) :=
    state.session.scheduler.nextMessage (fragmentReady state.session now anyDataSent)
  let state := state.update fun session => { session with scheduler := scheduler }
  match next with
  | none => .inl (anyDataSent, state)
  | some id =>
      match state.sendNextFragmentForMessage id now with
      | (true, state) => .inr (true, state)
      | (false, state) => .inl (anyDataSent, state)

theorem flushDatagrams_eq_atMost (now : Instant) (rounds : Nat) (state : FlushState C) :
    flushDatagrams now rounds state = Loops.atMost (datagramRound now) id rounds state := by
  induction rounds generalizing state with
  | zero => rfl
  | succ rounds ih =>
      unfold flushDatagrams Loops.atMost datagramRound
      cases state.session.datagramQueue with
      | nil => rfl
      | cons datagram queue =>
          dsimp only
          split
          next => rfl
          next =>
            cases offer (state.update _) (.datagram datagram.1 datagram.2) with
            | mk answer offered =>
                cases answer with
                | true => exact ih _
                | false => rfl

theorem flushData_eq_atMost (now : Instant) (rounds : Nat) (anyDataSent : Bool)
    (state : FlushState C) :
    flushData now rounds anyDataSent state =
      Loops.atMost (dataRound now) id rounds (anyDataSent, state) := by
  induction rounds generalizing anyDataSent state with
  | zero => rfl
  | succ rounds ih =>
      unfold flushData Loops.atMost dataRound
      dsimp only
      generalize state.session.scheduler.nextMessage
        (fragmentReady state.session now anyDataSent) = outcome
      cases outcome.1 with
      | none => rfl
      | some id =>
          dsimp only
          cases sendNextFragmentForMessage (state.update _) id now with
          | mk accepts sent =>
              cases accepts with
              | true => exact ih true sent
              | false => rfl

variable {id : MessageId} {msg : OutgoingMessage} {now : Instant} {state sent : FlushState C}

/-- The packet is taken and its fragment marked, and nothing that counts changes. -/
theorem trySendFragment_marks {idx : Nat} (hget : state.session.outgoing.get id = some msg)
    (heq : state.trySendFragment id idx now = (true, sent)) :
    sent.session.rtt = state.session.rtt ∧ ∃ delivered lastDelivery appLimited size,
      sent.session.outgoing = state.session.outgoing.insert id
        (msg.markFragmentSent idx now delivered lastDelivery appLimited size).2 := by
  obtain ⟨answers, hanswer | hanswer⟩ := trySendFragment_answer now hget idx
  · cases hanswer.symm.trans heq
    exact ⟨rfl, _, _, _, _, rfl⟩
  · cases hanswer.symm.trans heq

/-- A fragment sent and its message changed so that less is left to do. -/
theorem workLeft_trySendFragment {idx : Nat} (hpos : 0 < state.session.rtt.rto)
    (hget : state.session.outgoing.get id = some msg)
    (heq : state.trySendFragment id idx now = (true, sent)) {f : OutgoingMessage → OutgoingMessage}
    (hless : ∀ delivered lastDelivery appLimited size,
      let marked := (msg.markFragmentSent idx now delivered lastDelivery appLimited size).2
      (f marked).workLeft state.session.rtt now < marked.workLeft state.session.rtt now) :
    (sent.updateOutgoing id f).session.rtt = state.session.rtt ∧
      (sent.updateOutgoing id f).session.workLeft now < state.session.workLeft now := by
  obtain ⟨hrtt, delivered, lastDelivery, appLimited, size, hout⟩ := trySendFragment_marks hget heq
  refine ⟨hrtt, ?_⟩
  have hafter : (sent.updateOutgoing id f).session.outgoing = state.session.outgoing.insert id
      (f (msg.markFragmentSent idx now delivered lastDelivery appLimited size).2) :=
    (congrArg (AssocMap.modify · id f) hout).trans (AssocMap.modify_insert _ _ _ _)
  have hlower := hless delivered lastDelivery appLimited size
  dsimp only at hlower
  rw [OutgoingMessage.workLeft_markFragmentSent msg idx now delivered lastDelivery appLimited size
    hpos] at hlower
  have htotal := AssocMap.total_insert state.session.outgoing
    (fun _ msg => msg.workLeft state.session.rtt now) id
    (f (msg.markFragmentSent idx now delivered lastDelivery appLimited size).2)
  rw [AssocMap.weightAt_of_get _ hget] at htotal
  unfold SequenceSession.workLeft
  have hsame : (sent.updateOutgoing id f).session.rtt = state.session.rtt := hrtt
  rw [hafter, hsame]
  omega

/-- A message that the sender serves has less left to do, whichever of its fragments goes. -/
theorem workLeft_sendNextFragmentForMessage (hpos : 0 < state.session.rtt.rto)
    (heq : state.sendNextFragmentForMessage id now = (true, sent)) :
    sent.session.rtt = state.session.rtt ∧
      sent.session.workLeft now < state.session.workLeft now := by
  unfold sendNextFragmentForMessage at heq
  split at heq
  next => cases heq
  next msg hget =>
    dsimp only at heq
    split at heq
    next idx rest _ hqueue =>
      split at heq
      next accepted hsent =>
        cases heq
        refine workLeft_trySendFragment hpos hget hsent fun _ _ _ _ =>
          OutgoingMessage.workLeft_popRetransmit _ _ ?_
        exact hqueue ▸ List.cons_ne_nil _ _
      next => cases heq
    next idx sentAt _ htimedOut =>
      obtain ⟨hfront, hdue⟩ := Option.filter_eq_some_iff.mp htimedOut
      rw [decide_eq_true_eq] at hdue
      obtain ⟨rest, hqueue⟩ := List.head?_eq_some_iff.mp hfront
      split at heq
      next accepted hsent =>
        cases heq
        -- the entry that timed out is still in front, the new one behind it
        refine workLeft_trySendFragment hpos hget hsent ?_
        intro delivered lastDelivery appLimited size marked
        have hmarked : marked.inFlightQueue = (idx, sentAt) :: (rest ++ [(idx, now)]) :=
          congrArg (· ++ [(idx, now)]) hqueue
        refine OutgoingMessage.workLeft_popInFlight hmarked ?_
        rwa [SequenceSession.rtoBackoff_markFragmentSent]
      next => cases heq
    next =>
      split at heq
      next hnext =>
        split at heq
        next accepted hsent =>
          cases heq
          exact workLeft_trySendFragment hpos hget hsent fun _ _ _ _ =>
            OutgoingMessage.workLeft_advanceNext _ _ hnext
        next => cases heq
      next => cases heq

/-- An iteration of the main loop goes on, with any answer of the transport. -/
def GoesOn (now : Instant) (before after : Bool × FlushState C) : Prop :=
  ∃ answers, dataRound now (before.1, { before.2 with answers := answers }) = .inr after

theorem dataRound_inr {before after : Bool × FlushState C} (h : dataRound now before = .inr after)
    (hpos : 0 < before.2.session.rtt.rto) :
    after.2.session.rtt = before.2.session.rtt ∧
      after.2.session.workLeft now < before.2.session.workLeft now := by
  unfold dataRound at h
  dsimp only at h
  split at h
  next => cases h
  next id hnext =>
    split at h
    next sent hsent =>
      cases h
      have hsmaller := fun hready => workLeft_sendNextFragmentForMessage hready hsent
      exact hsmaller hpos
    next => cases h

theorem goesOn_variant (now : Instant) :
    Loops.Variant (GoesOn (C := C) now) (fun current => 0 < current.2.session.rtt.rto)
      fun current => current.2.session.workLeft now where
  kept := fun hpos ⟨_, hround⟩ => (dataRound_inr hround hpos).1 ▸ hpos
  decreases := fun hpos ⟨_, hround⟩ => (dataRound_inr hround hpos).2

omit [CongestionControl C] in
/-- The bound on the rounds is above the measure. -/
theorem workLeft_lt_dataRounds (session : SequenceSession C) (now : Instant) :
    session.workLeft now < dataRounds session := by
  unfold SequenceSession.workLeft dataRounds AssocMap.total AssocMap.values
  rw [List.map_map, Nat.lt_succ_iff]
  refine List.sum_le_sum fun entry _ => ?_
  have hdue : (entry.2.timedOutEntries session.rtt now).length ≤ entry.2.inFlightQueue.length :=
    List.length_filter_le _ _
  simp only [OutgoingMessage.workLeft, Function.comp_apply]
  omega

theorem datagramRound_variant (now : Instant) :
    Loops.Variant (fun before after : FlushState C => datagramRound now before = .inr after)
      (fun _ => True) fun state => state.session.datagramQueue.length := by
  refine ⟨fun _ _ => trivial, fun {before after} _ h => ?_⟩
  unfold datagramRound at h
  split at h
  next => cases h
  next messageType data queue hqueue =>
    split at h
    next => cases h
    next =>
      dsimp only at h
      split at h
      next => cases h
      next offered hoffer =>
        cases h
        rw [hqueue, session_update, session_offer hoffer]
        exact Nat.lt_succ_self _

end FlushState

namespace SequenceSession

open FlushState

variable [FloatOps] [CongestionControl C]

theorem mainLoopStart_rto_pos (config : SessionConfig C) (operations : List Operation)
    (now : Instant) (nowMs : Int) (answers : List Bool) :
    0 < ((runFrom step (.new config) operations).mainLoopStart now nowMs
      answers).session.rtt.rto := by
  have hstart := (clocked config operations).rto_pos
  generalize runFrom step (.new config) operations = session at hstart
  have hqueue := ((flushPing_moves ⟨session, answers, []⟩ now nowMs).mono
    (by decide : _ ⊆ [Stage.ping, .datagrams, .probe])).trans ((flushQueue_moves _).mono (by decide))
  have hmoves : Moves now nowMs [.ping, .datagrams, .probe] _
      (session.mainLoopStart now nowMs answers) :=
    hqueue.trans ((flushProbe_moves _ now nowMs).mono (by decide))
  have hupdates : session.SenderUpdates (session.mainLoopStart now nowMs answers).session :=
    hmoves.updates .refl
  generalize (session.mainLoopStart now nowMs answers).session = start at hupdates
  induction hupdates with
  | refl => exact hstart
  | tail _ hlast ih => exact hlast.rto_pos ih

/-- Flushing ends, in whatever state the session is and whatever the transport answers. The
datagram loop and the main loop, which have no bounds, end as the bounded ones of
`flush_packets`; and each iteration of the main loop breaks or lowers the measure, even if the
transport changes its mind between the iterations. -/
theorem flushPackets_terminates (config : SessionConfig C) (operations : List Operation)
    (now : Instant) (nowMs : Int) (answers : List Bool) :
    let session := runFrom step (.new config) operations
    let pinged := (⟨session, answers, []⟩ : FlushState C).flushPing now nowMs
    let start := session.mainLoopStart now nowMs answers
    flushDatagrams now pinged.session.datagramQueue.length pinged ∈
        Loops.forever (datagramRound now) pinged ∧
      flushData now (dataRounds start.session) false start ∈
        Loops.forever (dataRound now) (false, start) ∧
      Acc (fun after before => GoesOn now before after) (false, start) ∧
      ∀ before after, ReflTransGen (GoesOn now) (false, start) before →
        GoesOn now before after → after.2.session.workLeft now < before.2.session.workLeft now := by
  intro session pinged start
  have hpos : 0 < start.session.rtt.rto :=
    mainLoopStart_rto_pos config operations now nowMs answers
  refine ⟨?_, ?_, (goesOn_variant now).acc hpos, ?_⟩
  · rw [flushDatagrams_eq_atMost]
    refine (datagramRound_variant now).atMost_mem_forever ?_ trivial le_rfl
    intro state _ hempty
    unfold datagramRound
    rw [List.eq_nil_of_length_eq_zero hempty]
    rfl
  · rw [flushData_eq_atMost]
    -- one more than the work that is left, so that the last round may break
    have hvariant : Loops.Variant
        (fun before after : Bool × FlushState C => dataRound now before = .inr after)
        (fun current => 0 < current.2.session.rtt.rto)
        fun current => current.2.session.workLeft now + 1 :=
      ⟨fun hbefore hround => (dataRound_inr hround hbefore).1 ▸ hbefore,
        fun hbefore hround => Nat.succ_lt_succ (dataRound_inr hround hbefore).2⟩
    exact hvariant.atMost_mem_forever (fun _ _ hzero => absurd hzero (Nat.succ_ne_zero _)) hpos
      (workLeft_lt_dataRounds start.session now)
  · intro before after hreaches hgoes
    exact (goesOn_variant now).decreases ((goesOn_variant now).inv_of_reaches hpos hreaches) hgoes

end SequenceSession

end MerkleTox.Sequenced
