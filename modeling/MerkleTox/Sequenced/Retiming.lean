import MerkleTox.Sequenced.Turns

/-! # Sending beside other timers

The stages of a flush that send datagrams and fragments do not read the timers of the pings.
As long as the transport refuses nothing, they send the same whatever these timers say, and
they leave alone what the other stages go by.
-/

namespace MerkleTox.Sequenced

open Proto Library

variable {C : Type}

namespace SequenceSession

/-- The session with the timers of another. -/
def retimed (session other : SequenceSession C) : SequenceSession C :=
  { session with
    lastPing := other.lastPing
    lastPingSent := other.lastPingSent
    lastActivity := other.lastActivity }

section Retimed

variable (session other : SequenceSession C)

@[simp]
theorem outgoing_retimed : (session.retimed other).outgoing = session.outgoing := rfl

@[simp]
theorem datagramQueue_retimed : (session.retimed other).datagramQueue = session.datagramQueue := rfl

@[simp]
theorem scheduler_retimed : (session.retimed other).scheduler = session.scheduler := rfl

@[simp]
theorem rtt_retimed : (session.retimed other).rtt = session.rtt := rfl

@[simp]
theorem inFlight_retimed : (session.retimed other).inFlight = session.inFlight := rfl

@[simp]
theorem peerRwnd_retimed : (session.retimed other).peerRwnd = session.peerRwnd := rfl

@[simp]
theorem nextPacingTime_retimed :
    (session.retimed other).nextPacingTime = session.nextPacingTime := rfl

@[simp]
theorem lastRwndProbe_retimed :
    (session.retimed other).lastRwndProbe = session.lastRwndProbe := rfl

@[simp]
theorem zeroWindowProbesSent_retimed :
    (session.retimed other).zeroWindowProbesSent = session.zeroWindowProbesSent := rfl

@[simp]
theorem fragmentReady_retimed [CongestionControl C] (now : Instant) (anyDataSent : Bool) :
    FlushState.fragmentReady (session.retimed other) now anyDataSent =
      FlushState.fragmentReady session now anyDataSent := rfl

@[simp]
theorem dataRounds_retimed :
    FlushState.dataRounds (session.retimed other) = FlushState.dataRounds session := rfl

end Retimed

/-- What acknowledgements and NACKs are made of. -/
def owing (session : SequenceSession C) :=
  (session.receiveView, session.pendingAcks, session.pendingNacks, session.rtt)

/-- What the stages of the datagrams and of the fragments leave alone. -/
def standing (session : SequenceSession C) := (session.owing, session.lastPing)

end SequenceSession

namespace FlushState

/-- The refusals that are still to come. -/
def refusals (state : FlushState C) : Nat := state.answers.count false

/-- The same flush with other timers, after other packets, and with a transport that takes
everything. -/
def beside (state : FlushState C) (sent : List Packet) (other : SequenceSession C) :
    FlushState C :=
  ⟨state.session.retimed other, [], sent ++ state.accepted⟩

variable {state : FlushState C} (sent : List Packet) (other : SequenceSession C)
variable {start : FlushState C} {offered : FlushState C} {f : SequenceSession C → SequenceSession C}

theorem Reaches.refusals_le {nowMs : Int} {kinds : List PacketKind}
    (h : Reaches nowMs kinds start state) : state.refusals ≤ start.refusals := by
  obtain ⟨turns, hfollows, -⟩ := h
  unfold refusals
  rw [hfollows.answers]
  exact (List.drop_sublist _ _).count_le false

theorem Moves.refusals_le [CongestionControl C] {now : Instant} {stages : List Stage}
    (h : Moves now 0 stages start state) : state.refusals ≤ start.refusals :=
  (h.reaches fun _ hmem => List.mem_map_of_mem hmem).refusals_le

theorem refusals_offer_le {packet : Packet} {answer : Bool}
    (heq : state.offer packet = (answer, offered)) : offered.refusals ≤ state.refusals := by
  unfold offer at heq
  split at heq
  next =>
    cases heq
    exact Nat.le_refl _
  next answers hanswers =>
    cases heq
    unfold refusals
    rw [hanswers]
    exact (List.sublist_cons_self _ _).count_le false
  next answers hanswers =>
    cases heq
    unfold refusals
    rw [hanswers]
    exact (List.sublist_cons_self _ _).count_le false

theorem offer_beside {packet : Packet} {answer : Bool}
    (heq : state.offer packet = (answer, offered)) (hgranted : state.refusals ≤ offered.refusals) :
    answer = true ∧
      (state.beside sent other).offer packet = (true, offered.beside sent other) := by
  unfold offer at heq
  split at heq
  next =>
    cases heq
    exact ⟨rfl, by simp [beside, offer]⟩
  next =>
    cases heq
    exact ⟨rfl, by simp [beside, offer]⟩
  next answers hanswers =>
    cases heq
    unfold refusals at hgranted
    rw [hanswers, List.count_cons_self] at hgranted
    exact absurd hgranted (Nat.not_succ_le_self _)

@[simp]
theorem session_beside : (state.beside sent other).session = state.session.retimed other := rfl

/-- An update that does not read the timers. -/
theorem update_beside (hf : ∀ session other, f (session.retimed other) =
      (f session).retimed (f (session.retimed other))) :
    (state.beside sent other).update f =
      (state.update f).beside sent (f (state.session.retimed other)) := by
  unfold update beside
  dsimp only
  rw [← hf]

/-- An update that leaves the timers alone, too. -/
theorem update_beside_same
    (hf : ∀ session other, f (session.retimed other) = (f session).retimed other) :
    (state.beside sent other).update f = (state.update f).beside sent other := by
  unfold update beside
  dsimp only
  rw [hf]

section Stages

variable [CongestionControl C] {now : Instant}
variable {after : FlushState C} {answer : Bool} {id : MessageId}

theorem trySendFragment_beside {idx : Nat}
    (heq : state.trySendFragment id idx now = (answer, after))
    (hgranted : state.refusals ≤ after.refusals) :
    ∃ changed, (state.beside sent other).trySendFragment id idx now =
      (answer, after.beside sent changed) ∧ after.session.standing = state.session.standing := by
  unfold trySendFragment at heq ⊢
  rw [session_beside, SequenceSession.outgoing_retimed]
  cases hmsg : state.session.outgoing.get id with
  | none =>
      rw [hmsg] at heq
      cases heq
      exact ⟨other, rfl, rfl⟩
  | some msg =>
      rw [hmsg] at heq
      dsimp only at heq ⊢
      cases hoffer : state.offer (.data id idx msg.numFragments (msg.getFragment idx)) with
      | mk taken offered =>
          rw [hoffer] at heq
          have hrefusals : after.refusals = offered.refusals := by
            cases taken <;> cases heq <;> rfl
          rw [hrefusals] at hgranted
          obtain ⟨rfl, hother⟩ := offer_beside sent other hoffer hgranted
          cases heq
          rw [hother]
          dsimp only
          rw [update_beside _ _ fun _ _ => rfl]
          exact ⟨_, rfl, session_offer hoffer ▸ rfl⟩

theorem flushDatagrams_beside (rounds : Nat)
    (hgranted : state.refusals ≤ (flushDatagrams now rounds state).refusals) :
    ∃ changed, flushDatagrams now rounds (state.beside sent other) =
        (flushDatagrams now rounds state).beside sent changed ∧
      (flushDatagrams now rounds state).session.standing = state.session.standing := by
  induction rounds generalizing state other with
  | zero => exact ⟨other, rfl, rfl⟩
  | succ rounds ih =>
      unfold flushDatagrams at hgranted ⊢
      rw [session_beside, SequenceSession.datagramQueue_retimed,
        SequenceSession.nextPacingTime_retimed]
      cases hdatagrams : state.session.datagramQueue with
      | nil => exact ⟨other, rfl, rfl⟩
      | cons datagram queue =>
          rw [hdatagrams] at hgranted
          dsimp only at hgranted ⊢
          split
          next => exact ⟨other, rfl, rfl⟩
          next hpaced =>
            rw [if_neg hpaced] at hgranted
            rw [update_beside_same _ _ fun _ _ => rfl]
            generalize hbefore : (state.update fun session =>
              { session with datagramQueue := queue }) = before at hgranted ⊢
            have hstanding : before.session.standing = state.session.standing := hbefore ▸ rfl
            have hrefusals : before.refusals = state.refusals := hbefore ▸ rfl
            cases hoffer : before.offer (.datagram datagram.1 datagram.2) with
            | mk answer offered =>
                rw [hoffer] at hgranted
                have hanswer : before.refusals ≤ offered.refusals := by
                  rw [hrefusals]
                  refine hgranted.trans ?_
                  cases answer with
                  | false => exact Nat.le_refl _
                  | true => exact (flushDatagrams_moves rounds _).refusals_le
                obtain ⟨rfl, hother⟩ := offer_beside sent other hoffer hanswer
                rw [hother]
                dsimp only at hgranted ⊢
                rw [update_beside _ _ fun _ _ => rfl]
                have hless := (refusals_offer_le hoffer).trans (hrefusals.le.trans hgranted)
                rw [← session_offer hoffer] at hstanding
                rw [← hstanding]
                exact ih _ hless

theorem flushProbe_beside (hgranted : state.refusals ≤ (state.flushProbe now).refusals) :
    ∃ changed, (state.beside sent other).flushProbe now =
        (state.flushProbe now).beside sent changed ∧
      (state.flushProbe now).session.standing = state.session.standing := by
  unfold flushProbe at hgranted ⊢
  dsimp only at hgranted ⊢
  rw [session_beside, SequenceSession.outgoing_retimed, SequenceSession.peerRwnd_retimed,
    SequenceSession.nextPacingTime_retimed, SequenceSession.rtt_retimed,
    SequenceSession.lastRwndProbe_retimed, SequenceSession.zeroWindowProbesSent_retimed]
  split
  next hdue =>
    rw [if_pos hdue] at hgranted
    cases htarget : state.session.outgoing.entries.findSome? probeTarget with
    | none => exact ⟨other, rfl, rfl⟩
    | some target =>
        obtain ⟨id, idx, isNew⟩ := target
        rw [htarget] at hgranted
        dsimp only at hgranted ⊢
        cases heq : state.trySendFragment id idx now with
        | mk answer after =>
            rw [heq] at hgranted
            have hafter : state.refusals ≤ after.refusals := by
              cases answer <;> cases isNew <;> exact hgranted
            obtain ⟨changed, hother, hstanding⟩ := trySendFragment_beside sent other heq hafter
            rw [hother, ← hstanding]
            cases answer with
            | false => exact ⟨changed, rfl, rfl⟩
            | true => cases isNew <;> exact ⟨changed, rfl, rfl⟩
  next => exact ⟨other, rfl, rfl⟩

/-- A fragment after which, when it is taken, the session is updated. -/
theorem trySendFragment_update_beside {idx : Nat} {f : SequenceSession C → SequenceSession C}
    (hf : ∀ session other, f (session.retimed other) = (f session).retimed other)
    (hstanding : ∀ session, (f session).standing = session.standing)
    (heq : (match state.trySendFragment id idx now with
      | (true, state) => (true, state.update f)
      | (false, state) => (false, state)) = (answer, after))
    (hgranted : state.refusals ≤ after.refusals) :
    ∃ changed, (match (state.beside sent other).trySendFragment id idx now with
      | (true, state) => (true, state.update f)
      | (false, state) => (false, state)) = (answer, after.beside sent changed) ∧
        after.session.standing = state.session.standing := by
  cases htry : state.trySendFragment id idx now with
  | mk taken middle =>
      rw [htry] at heq
      cases taken with
      | false =>
          cases heq
          obtain ⟨changed, hother, hkept⟩ :=
            trySendFragment_beside sent other htry hgranted
          rw [hother]
          exact ⟨changed, rfl, hkept⟩
      | true =>
          cases heq
          obtain ⟨changed, hother, hkept⟩ :=
            trySendFragment_beside sent other htry hgranted
          rw [hother, ← hkept]
          refine ⟨changed, ?_, hstanding middle.session⟩
          dsimp only
          rw [update_beside_same _ _ hf]

theorem sendNextFragmentForMessage_beside
    (heq : state.sendNextFragmentForMessage id now = (answer, after))
    (hgranted : state.refusals ≤ after.refusals) :
    ∃ changed, (state.beside sent other).sendNextFragmentForMessage id now =
      (answer, after.beside sent changed) ∧ after.session.standing = state.session.standing := by
  unfold sendNextFragmentForMessage at heq ⊢
  rw [session_beside, SequenceSession.outgoing_retimed, SequenceSession.rtt_retimed]
  cases hmsg : state.session.outgoing.get id with
  | none =>
      rw [hmsg] at heq
      cases heq
      exact ⟨other, rfl, rfl⟩
  | some msg =>
      rw [hmsg] at heq
      dsimp only at heq ⊢
      split at heq
      next idx rest hqueue =>
        exact trySendFragment_update_beside sent other (f := fun session =>
          { session with outgoing := session.outgoing.modify id popRetransmit })
          (fun _ _ => rfl) (fun _ => rfl) heq hgranted
      next idx lastSent hqueue hdue =>
        exact trySendFragment_update_beside sent other (f := fun session =>
          { session with
            outgoing := session.outgoing.modify id (popInFlight idx)
            congestionControl := CongestionControl.onTimeout session.congestionControl now })
          (fun _ _ => rfl) (fun _ => rfl) heq hgranted
      next hqueue hdue =>
        by_cases hnew : msg.nextFragment < msg.numFragments
        · rw [if_pos hnew] at heq ⊢
          exact trySendFragment_update_beside sent other (f := fun session =>
            { session with outgoing := session.outgoing.modify id advanceNext })
            (fun _ _ => rfl) (fun _ => rfl) heq hgranted
        · rw [if_neg hnew] at heq ⊢
          cases heq
          exact ⟨other, rfl, rfl⟩

theorem flushData_beside (rounds : Nat) (anyDataSent : Bool)
    (hgranted : state.refusals ≤ (flushData now rounds anyDataSent state).2.refusals) :
    ∃ changed, flushData now rounds anyDataSent (state.beside sent other) =
        ((flushData now rounds anyDataSent state).1,
          (flushData now rounds anyDataSent state).2.beside sent changed) ∧
      (flushData now rounds anyDataSent state).2.session.standing = state.session.standing := by
  induction rounds generalizing state other anyDataSent with
  | zero => exact ⟨other, rfl, rfl⟩
  | succ rounds ih =>
      unfold flushData at hgranted ⊢
      dsimp only at hgranted ⊢
      rw [session_beside, SequenceSession.scheduler_retimed,
        SequenceSession.fragmentReady_retimed, update_beside_same _ _ fun _ _ => rfl]
      generalize hbefore : (state.update fun session => { session with scheduler :=
        (state.session.scheduler.nextMessage (fragmentReady state.session now anyDataSent)).2 }) =
          before at hgranted ⊢
      have hstanding : before.session.standing = state.session.standing := hbefore ▸ rfl
      have hrefusals : before.refusals = state.refusals := hbefore ▸ rfl
      rw [← hrefusals] at hgranted
      rw [← hstanding]
      cases hnext : (state.session.scheduler.nextMessage
          (fragmentReady state.session now anyDataSent)).1 with
      | none => exact ⟨_, rfl, rfl⟩
      | some id =>
          rw [hnext] at hgranted
          dsimp only at hgranted ⊢
          cases hsend : before.sendNextFragmentForMessage id now with
          | mk answer after =>
              rw [hsend] at hgranted
              have hafter : before.refusals ≤ after.refusals := by
                refine hgranted.trans ?_
                cases answer with
                | false => exact Nat.le_refl _
                | true => exact (flushData_moves rounds true _).refusals_le
              have hless : after.refusals ≤ before.refusals := by
                have hready : (fragmentReady before.session now anyDataSent id).isSome = true :=
                  hbefore ▸ PriorityScheduler.nextMessage_ready hnext
                have hmessage := (sendNextFragmentForMessage_moves hready).refusals_le
                rwa [hsend] at hmessage
              obtain ⟨changed, hother, hkept⟩ := sendNextFragmentForMessage_beside sent _ hsend hafter
              rw [hother, ← hkept]
              cases answer with
              | false => exact ⟨changed, rfl, rfl⟩
              | true => exact ih _ true (hless.trans hgranted)

theorem flushTailProbe_beside [FloatOps] (anyDataSent : Bool)
    (hgranted : state.refusals ≤ (state.flushTailProbe now anyDataSent).refusals) :
    ∃ changed, (state.beside sent other).flushTailProbe now anyDataSent =
        (state.flushTailProbe now anyDataSent).beside sent changed ∧
      (state.flushTailProbe now anyDataSent).session.standing = state.session.standing := by
  unfold flushTailProbe at hgranted ⊢
  dsimp only at hgranted ⊢
  rw [session_beside, SequenceSession.inFlight_retimed, SequenceSession.rtt_retimed,
    SequenceSession.outgoing_retimed]
  split
  next hidle =>
    rw [if_pos hidle] at hgranted
    cases htarget : state.session.outgoing.entries.findSome? (tailTarget now
        (max (FloatOps.mulF32 state.session.rtt.srtt (3 / 2)) (fromMillis 10))) with
    | none => exact ⟨other, rfl, rfl⟩
    | some target =>
        rw [htarget] at hgranted
        dsimp only at hgranted ⊢
        obtain ⟨changed, hother, hkept⟩ := trySendFragment_beside sent other
          (Prod.eta _).symm hgranted
        rw [hother]
        exact ⟨changed, rfl, hkept⟩
  next => exact ⟨other, rfl, rfl⟩

theorem flushQueue_beside (hgranted : state.refusals ≤ (state.flushQueue now).refusals) :
    ∃ changed, (state.beside sent other).flushQueue now =
        (state.flushQueue now).beside sent changed ∧
      (state.flushQueue now).session.standing = state.session.standing :=
  flushDatagrams_beside sent other state.session.datagramQueue.length hgranted

theorem flushFragments_beside [FloatOps]
    (hgranted : state.refusals ≤ (state.flushFragments now).refusals) :
    ∃ changed, (state.beside sent other).flushFragments now =
        (state.flushFragments now).beside sent changed ∧
      (state.flushFragments now).session.standing = state.session.standing := by
  unfold flushFragments at hgranted ⊢
  dsimp only at hgranted ⊢
  have hprobe := (state.flushProbe_moves now 0).refusals_le
  have hdata : ∀ probed : FlushState C, (flushData now (dataRounds probed.session) false
      probed).2.refusals ≤ probed.refusals := fun _ => (flushData_moves _ _ _).refusals_le
  have htail : ∀ data : Bool × FlushState C,
      (data.2.flushTailProbe now data.1).refusals ≤ data.2.refusals :=
    fun data => (flushTailProbe_moves data.2 data.1).refusals_le
  -- A stage refuses nothing if nothing is refused from its start to the end.
  obtain ⟨first, hother, hkept⟩ := flushProbe_beside sent other
    (hgranted.trans ((htail _).trans (hdata _)))
  rw [hother, ← hkept]
  generalize state.flushProbe now = probed at hprobe hgranted ⊢
  rw [session_beside, SequenceSession.dataRounds_retimed]
  obtain ⟨second, hother, hkept⟩ := flushData_beside sent first (dataRounds probed.session) false
    (hprobe.trans (hgranted.trans (htail _)))
  rw [hother, ← hkept]
  have hprobed := hdata probed
  generalize flushData now (dataRounds probed.session) false probed = data at hprobed hgranted ⊢
  exact flushTailProbe_beside sent second data.1 (hprobed.trans (hprobe.trans hgranted))

/-- Both stages, one after the other. -/
theorem flushQueue_flushFragments_beside [FloatOps]
    (hqueue : state.refusals ≤ (state.flushQueue now).refusals)
    (hfragments : (state.flushQueue now).refusals ≤
      ((state.flushQueue now).flushFragments now).refusals) :
    ∃ changed, ((state.beside sent other).flushQueue now).flushFragments now =
        ((state.flushQueue now).flushFragments now).beside sent changed ∧
      ((state.flushQueue now).flushFragments now).session.standing = state.session.standing := by
  obtain ⟨changed, hother, hkept⟩ := flushQueue_beside sent other hqueue
  rw [hother, ← hkept]
  exact flushFragments_beside sent changed hfragments

end Stages

end FlushState

end MerkleTox.Sequenced
