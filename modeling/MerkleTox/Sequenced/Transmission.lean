import MerkleTox.Sequenced.Fragments

/-! # What a flush sends

To the outgoing messages and to the bytes in flight, a flush is a sequence of sent
fragments, each of them sent in one of the ways of `OutgoingMessage.Sends`. Only the
zero-window probe sends a new fragment without asking whether it is acknowledged.
-/

namespace MerkleTox.Sequenced

open Library

variable {C : Type}

/-! ### Sequences of sent fragments -/

namespace SequenceSession

def AllTracked (session : SequenceSession C) : Prop :=
  ∀ id msg, session.outgoing.get id = some msg → msg.Tracked

/-- The session has come to be from another one by sending fragments. -/
inductive Transmits (careful : Prop) (start : SequenceSession C) : SequenceSession C → Prop
  | unchanged {session : SequenceSession C} (hout : session.outgoing = start.outgoing)
      (hinFlight : session.inFlight = start.inFlight) : Transmits careful start session
  | sends {middle session : SequenceSession C} {id : MessageId} {msg after : OutgoingMessage}
      {idx : Nat} (htransmits : Transmits careful start middle)
      (hget : middle.outgoing.get id = some msg) (hsends : msg.Sends careful idx after)
      (hout : session.outgoing = middle.outgoing.insert id after)
      (hinFlight : session.inFlight = (if msg.isInFlight idx then
        middle.inFlight - msg.fragmentLen idx else middle.inFlight) + msg.fragmentLen idx) :
      Transmits careful start session

variable {careful : Prop} {start session : SequenceSession C}

theorem Transmits.of_same (h : Transmits careful start session) {other : SequenceSession C}
    (hout : other.outgoing = session.outgoing) (hinFlight : other.inFlight = session.inFlight) :
    Transmits careful start other := by
  cases h with
  | unchanged hout' hinFlight' => exact .unchanged (hout.trans hout') (hinFlight.trans hinFlight')
  | sends htransmits hget hsends hout' hinFlight' =>
      exact .sends htransmits hget hsends (hout.trans hout') (hinFlight.trans hinFlight')

theorem Transmits.tracked (h : Transmits careful start session) (hstart : start.AllTracked) :
    session.AllTracked := by
  induction h with
  | unchanged hout _ =>
      intro id msg hget
      exact hstart id msg (hout ▸ hget)
  | @sends middle session id msg after idx _ hget hsends hout _ ih =>
      unfold AllTracked
      rw [hout]
      exact AssocMap.forall_insert ih (hsends.tracked (ih id msg hget))

end SequenceSession

/-! ### The parts of a flush -/

section Quiet

/-- Nothing has happened to the data, and the pacing only delays. -/
structure Quiet (before after : SequenceSession C) : Prop where
  outgoing : after.outgoing = before.outgoing
  inFlight : after.inFlight = before.inFlight
  probe : (after.peerRwnd, after.rtt, after.zeroWindowProbesSent, after.lastRwndProbe) =
    (before.peerRwnd, before.rtt, before.zeroWindowProbesSent, before.lastRwndProbe)
  pacing : before.nextPacingTime ≤ after.nextPacingTime

theorem Quiet.refl (session : SequenceSession C) : Quiet session session :=
  ⟨rfl, rfl, rfl, Int.le_refl _⟩

theorem Quiet.trans {first second third : SequenceSession C} (h : Quiet first second)
    (h' : Quiet second third) : Quiet first third :=
  ⟨h'.outgoing.trans h.outgoing, h'.inFlight.trans h.inFlight, h'.probe.trans h.probe,
    Int.le_trans h.pacing h'.pacing⟩

theorem Quiet.of_eq {first second : SequenceSession C} (h : second = first) :
    Quiet first second := h ▸ .refl first

end Quiet

namespace SequenceSession

/-- A probe that is not due does not become so. -/
theorem probesAcked_of_quiet {before after : SequenceSession C} {now : Instant}
    (hquiet : Quiet before after) (h : before.probesAcked now = false) :
    after.probesAcked now = false := by
  obtain ⟨hrwnd, hrtt, hsent, hlast⟩ : after.peerRwnd = before.peerRwnd ∧
      after.rtt = before.rtt ∧ after.zeroWindowProbesSent = before.zeroWindowProbesSent ∧
      after.lastRwndProbe = before.lastRwndProbe := by
    simpa only [Prod.mk.injEq] using hquiet.probe
  unfold probesAcked at h ⊢
  rw [hquiet.outgoing, hrwnd, hrtt, hsent, hlast]
  rw [Bool.and_eq_false_iff] at h ⊢
  refine h.imp (fun hdue => ?_) id
  rw [decide_eq_false_iff_not] at hdue ⊢
  rintro ⟨hclosed, hpaced, helapsed⟩
  exact hdue ⟨hclosed, Int.le_trans hquiet.pacing hpaced, helapsed⟩

end SequenceSession

namespace FlushState

open SequenceSession

variable {careful : Prop} {start : SequenceSession C} {state : FlushState C}
variable [CongestionControl C]

omit [CongestionControl C] in
theorem quiet_offer {packet : Packet} {answer : Bool} {offered : FlushState C}
    (heq : state.offer packet = (answer, offered)) : Quiet state.session offered.session :=
  .of_eq (session_offer heq)

variable {after : FlushState C} {now : Instant} {stage : Stage}

/-- Before the probe nothing happens to the data. -/
theorem Move.quiet {nowMs : Int} (hmove : Move now nowMs state stage after)
    (hstage : stage ∈ [.ping, .datagrams]) : Quiet state.session after.session := by
  cases hmove with
  | ping hoffer => exact (quiet_offer hoffer).trans ⟨rfl, rfl, rfl, Int.le_refl _⟩
  | datagram _ hoffer =>
      refine (quiet_offer hoffer).trans ⟨rfl, rfl, rfl, ?_⟩
      exact Int.le_trans (Int.le_max_left _ _)
        (Int.le_add_of_nonneg_right (Int.natCast_nonneg _))
  | lost _ hoffer => exact (quiet_offer hoffer).trans ⟨rfl, rfl, rfl, Int.le_refl _⟩
  | fragment _ hkind =>
      rcases List.mem_cons.mp hstage with rfl | hstage
      · cases hkind
      · cases List.mem_singleton.mp hstage
        cases hkind
  | refused hoffer => exact quiet_offer hoffer
  | _ => simp at hstage

/-- A fragment that is picked is sent in one of the ways of `OutgoingMessage.Sends`. -/
theorem Picks.sends {session : SequenceSession C} {msg : OutgoingMessage} {idx : Nat}
    {f : OutgoingMessage → OutgoingMessage} (hpicks : Picks session now msg stage idx f)
    (htracked : msg.Tracked) (hprobe : stage = .probe → careful → session.probesAcked now = false) :
    idx < msg.numFragments ∧
      ∀ marked, msg.MarkedSent idx marked → msg.Sends careful idx (f marked) := by
  have hflying : ∀ {entry}, entry ∈ msg.inFlightQueue → entry.1 < msg.numFragments :=
    fun hmem => htracked.lt_of_isInFlight (htracked.flying _ hmem)
  have hwaiting : ∀ {idx}, idx ∈ msg.retransmitQueue → idx < msg.numFragments :=
    fun hmem => (OutgoingMessage.isAcked_eq_false.mp (htracked.unacked _ hmem)).1
  cases hpicks with
  | retransmitted hqueue =>
      exact ⟨hwaiting (hqueue ▸ List.mem_cons_self), fun _ hmarked => .retransmitted hmarked hqueue⟩
  | timedOut hqueue =>
      exact ⟨hflying (hqueue ▸ List.mem_cons_self), fun _ hmarked => .timedOut hmarked hqueue⟩
  | fresh hlt hunacked => exact ⟨hlt, fun _ hmarked => .advanced hmarked rfl hlt fun _ => hunacked⟩
  | probed hlt hunacked =>
      refine ⟨hlt, fun _ hmarked => .advanced hmarked rfl hlt fun hcareful => ?_⟩
      exact hunacked (hprobe rfl hcareful)
  | again hknown =>
      rcases hknown with hmem | ⟨time, hmem⟩
      · exact ⟨hwaiting hmem, fun _ hmarked => .again hmarked (.inr hmem)⟩
      · exact ⟨hflying hmem, fun _ hmarked => .again hmarked (.inl (htracked.flying _ hmem))⟩

theorem Move.transmits {nowMs : Int} (hmove : Move now nowMs state stage after)
    (hstart : start.AllTracked)
    (hprobe : stage = .probe → careful → state.session.probesAcked now = false)
    (h : Transmits careful start state.session) : Transmits careful start after.session := by
  have hoffered : ∀ {packet answer offered}, state.offer packet = (answer, offered) →
      Transmits careful start offered.session := fun heq => session_offer heq ▸ h
  cases hmove with
  | ping hoffer | datagram _ hoffer | lost _ hoffer => exact (hoffered hoffer).of_same rfl rfl
  | @fragment _ id msg idx f offered g hget _ hpicks hoffer hout hframe =>
      have htracked := h.tracked hstart id msg hget
      obtain ⟨hlt, hsends⟩ := hpicks.sends htracked hprobe
      obtain ⟨⟨_, _, houtgoing⟩, hkept⟩ := fragment_spec state.session msg idx now hout hframe
      rw [session_update, session_offer hoffer]
      refine .sends h hget (hsends _ ?_) houtgoing ?_
      · exact OutgoingMessage.markFragmentSent_spec (htracked.states ▸ hlt) _ _ _ _ _
      · exact congrArg (fun frame => frame.2.2.2.2) hkept
  | ack _ hoffer | nack _ _ hoffer => exact (hoffered hoffer).of_same rfl rfl
  | refused hoffer => exact hoffered hoffer
  | _ => exact h.of_same rfl rfl

/-- A flush is a sequence of sent fragments; it is a careful one unless the zero-window
probe sends a fragment that is acknowledged. -/
theorem transmits_flushAll [FloatOps] (hstart : state.session.AllTracked) (now : Instant)
    (nowMs : Int) (hprobe : careful → state.session.probesAcked now = false) :
    Transmits careful state.session (state.flushAll now nowMs).session := by
  rw [flushAll_stages]
  have hbefore : Moves now nowMs [.ping, .datagrams] state
      ((state.flushPing now nowMs).flushQueue now) :=
    ((flushPing_moves state now nowMs).mono (by decide)).trans
      ((flushQueue_moves _).mono (by decide))
  generalize (state.flushPing now nowMs).flushQueue now = ready at hbefore ⊢
  have hquiet := hbefore.invariant (fun other => Quiet state.session other.session)
    (fun hstage hmove hquiet => hquiet.trans (hmove.quiet hstage)) (.refl _)
  have hready : Transmits careful state.session ready.session :=
    .unchanged hquiet.outgoing hquiet.inFlight
  have hprobed : Transmits careful state.session (ready.flushProbe now).session := by
    rcases ready.flushProbe_move now nowMs with hsame | hmove
    · rwa [hsame]
    · exact hmove.transmits hstart
        (fun _ hcareful => probesAcked_of_quiet hquiet (hprobe hcareful)) hready
  have hafter : Moves now nowMs [.fragments, .acks, .nacks] (ready.flushProbe now)
      (((ready.flushFragments now).flushPendingAcks now).flushPendingNacks now) :=
    (((flushFragments_moves_probed ready nowMs).mono (by decide)).trans
      ((flushPendingAcks_moves _).mono (by decide))).trans
      ((flushPendingNacks_moves _).mono (by decide))
  generalize ((ready.flushFragments now).flushPendingAcks now).flushPendingNacks now = last
    at hafter ⊢
  have hlast := hafter.invariant (fun other => Transmits careful state.session other.session)
    (fun {_ _ stage} hstage hmove h => hmove.transmits hstart
      (fun heq => absurd hstage (heq ▸ by decide)) h) hprobed
  obtain ⟨appLimited, hlimited⟩ := detectAppLimited_eq last.session
  rw [session_update, hlimited]
  exact hlast.of_same rfl rfl

end FlushState

end MerkleTox.Sequenced
