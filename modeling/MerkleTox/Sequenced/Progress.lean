import MerkleTox.Sequenced.InFlight

/-! # No stuck message

A message that is not completely acknowledged has a fragment waiting for its
retransmission, a fragment in flight, or a next fragment that the scheduler can send.
The scheduler stops at a next fragment that is acknowledged or was asked for before it
was sent, so this needs peers that name unsent fragments only together with all unsent
fragments behind them.
-/

namespace MerkleTox.Sequenced

open Proto Library

variable {freed : Nat} {indices : List Nat}
variable {C : Type}

namespace OutgoingMessage

/-- The readiness test of `flush_packets` for the next fragment, without the windows. -/
def nextSendable (msg : OutgoingMessage) : Bool :=
  decide (msg.nextFragment < msg.numFragments) && !msg.isAcked msg.nextFragment &&
    (msg.fragmentState msg.nextFragment).lastSent.isNone &&
    (msg.fragmentState msg.nextFragment).deliveryInfo.isNone

/-- The message has something left to send or to wait for. -/
def canProgress (msg : OutgoingMessage) : Bool :=
  !msg.retransmitQueue.isEmpty || !msg.inFlightQueue.isEmpty || msg.nextSendable

/-- The fresh fragments are consecutive and begin with the next fragment. -/
def Orderly (msg : OutgoingMessage) : Prop :=
  ∀ idx, msg.Fresh idx → msg.nextFragment ≤ idx ∧
    ∀ other, msg.nextFragment ≤ other → other ≤ idx → msg.Fresh other

/-- A set of indices that holds with a fresh fragment all fresh fragments behind it. -/
def NamesTail (msg : OutgoingMessage) (named : Nat → Prop) : Prop :=
  ∀ idx other, msg.Fresh idx → named idx → msg.Fresh other → idx ≤ other → named other

variable {msg after : OutgoingMessage} {idx : Nat}

theorem Tracked.not_fresh (h : msg.Tracked)
    (hknown : msg.isInFlight idx = true ∨ idx ∈ msg.retransmitQueue) : ¬ msg.Fresh idx := by
  rintro ⟨-, hunsent, hunasked⟩
  rcases hknown with hflight | hwaiting
  · exact absurd (hunsent.symm.trans (h.noted idx hflight)) nofun
  · exact hunasked hwaiting

/-- An orderly message that is not completely acknowledged is not stuck. -/
theorem Orderly.canProgress (horderly : msg.Orderly) (h : msg.Tracked)
    (hall : msg.allAcked = false) : msg.canProgress = true := by
  obtain ⟨idx, hunacked⟩ := h.counted.exists_unacked hall
  unfold OutgoingMessage.canProgress
  rw [Bool.or_eq_true, Bool.or_eq_true, Bool.not_eq_true', Bool.not_eq_true',
    List.isEmpty_eq_false_iff, List.isEmpty_eq_false_iff]
  by_cases hfresh : msg.Fresh idx
  · -- the next fragment is fresh, too
    obtain ⟨hle, hbetween⟩ := horderly idx hfresh
    obtain ⟨hnext, hunsent, -⟩ := hbetween msg.nextFragment le_rfl hle
    have hidle : msg.isInFlight msg.nextFragment = false := by
      by_contra hflight
      rw [Bool.not_eq_false] at hflight
      exact absurd (hunsent.symm.trans (h.noted _ hflight)) nofun
    right
    unfold nextSendable
    rw [hnext, decide_eq_true (isAcked_eq_false.mp hnext).1, ← Option.not_isSome,
      ← Option.not_isSome, hunsent]
    unfold isInFlight at hidle
    rw [hidle]
    rfl
  · left
    by_cases hwaiting : idx ∈ msg.retransmitQueue
    · exact .inl (List.ne_nil_of_mem hwaiting)
    · have hsent : (msg.fragmentState idx).deliveryInfo.isSome = true := by
        by_contra hunsent
        rw [Bool.not_eq_true] at hunsent
        exact hfresh ⟨hunacked, hunsent, hwaiting⟩
      have hflight : msg.isInFlight idx = true := by
        by_contra hidle
        rw [Bool.not_eq_true] at hidle
        exact hwaiting (h.waiting idx hunacked hsent hidle)
      obtain ⟨entry, hentry, -⟩ := h.queued idx hflight
      exact .inr (List.ne_nil_of_mem hentry)

theorem Orderly.sends {careful : Prop} (horderly : msg.Orderly) (h : msg.Tracked)
    (hsends : msg.Sends careful idx after) : after.Orderly := by
  have hfresh := hsends.fresh h
  -- a fragment that is sent again is not fresh, so that nothing changes
  have hsame : after.nextFragment = msg.nextFragment → ¬ msg.Fresh idx → after.Orderly := by
    intro hnext hstale
    have hiff : ∀ other, after.Fresh other ↔ msg.Fresh other := by
      intro other
      rw [hfresh other, and_iff_left_iff_imp]
      rintro hother rfl
      exact hstale hother
    intro other hother
    rw [hnext]
    obtain ⟨hle, hbetween⟩ := horderly other ((hiff other).mp hother)
    exact ⟨hle, fun inner hlow hhigh => (hiff inner).mpr (hbetween inner hlow hhigh)⟩
  cases hsends with
  | again hsent hknown => exact hsame hsent.next (h.not_fresh hknown)
  | @retransmitted marked hsent rest hqueue =>
      have hnext : (FlushState.popRetransmit marked).nextFragment = marked.nextFragment := by
        unfold FlushState.popRetransmit
        split <;> rfl
      exact hsame (hnext.trans hsent.next)
        (h.not_fresh (.inr (hqueue ▸ List.mem_cons_self)))
  | timedOut hsent hqueue =>
      exact hsame hsent.next (h.not_fresh (.inl (h.flying _ (hqueue ▸ List.mem_cons_self))))
  | @advanced marked hsent hnext hlt hunacked =>
      have hafter : (FlushState.advanceNext marked).nextFragment = idx + 1 := by
        rw [hnext, ← hsent.next]
        rfl
      intro other hother
      rw [hafter]
      obtain ⟨hbefore, hne⟩ := (hfresh other).mp hother
      obtain ⟨hle, hbetween⟩ := horderly other hbefore
      refine ⟨by omega, fun inner hlow hhigh => (hfresh inner).mpr ⟨?_, by omega⟩⟩
      exact hbetween inner (by omega) hhigh

/-- Fragments that are acknowledged or asked for are fresh no more. -/
theorem Orderly.settles {asked named : Nat → Prop} (horderly : msg.Orderly)
    (hsettles : msg.Settles after asked freed)
    (hnamed : ∀ idx, msg.Fresh idx → (after.Fresh idx ↔ ¬ named idx))
    (htail : msg.NamesTail named) : after.Orderly := by
  have hbefore : ∀ idx, after.Fresh idx → msg.Fresh idx := by
    rintro idx ⟨hunacked, hunsent, hunasked⟩
    refine ⟨?_, ?_, fun hwaiting => hunasked (hsettles.kept idx hwaiting hunacked)⟩
    · by_contra hacked
      rw [Bool.not_eq_false] at hacked
      exact absurd (hunacked.symm.trans (hsettles.acked idx hacked)) nofun
    · rwa [hsettles.info] at hunsent
  intro idx hidx
  rw [hsettles.next]
  obtain ⟨hle, hbetween⟩ := horderly idx (hbefore idx hidx)
  refine ⟨hle, fun other hlow hhigh => ?_⟩
  have hother := hbetween other hlow hhigh
  rw [hnamed other hother]
  intro hmem
  exact (hnamed idx (hbefore idx hidx)).mp hidx
    (htail other idx hother hmem (hbefore idx hidx) hhigh)

theorem Orderly.acked (horderly : msg.Orderly) (h : msg.Tracked)
    (hsettles : msg.Settles after (fun _ => False) freed)
    (hacked : ∀ idx, after.isAcked idx = (msg.isAcked idx || decide (idx ∈ indices)))
    (htail : msg.NamesTail (· ∈ indices)) : after.Orderly := by
  refine horderly.settles hsettles (fun idx hfresh => ?_) htail
  obtain ⟨hunacked, hunsent, hunasked⟩ := hfresh
  have hqueue : idx ∉ after.retransmitQueue := by
    intro hmem
    rcases hsettles.added idx hmem with hbefore | hflight | hfalse
    · exact hunasked hbefore
    · exact h.not_fresh (.inl hflight) ⟨hunacked, hunsent, hunasked⟩
    · exact hfalse
  unfold Fresh
  rw [hacked, hunacked, hsettles.info, hunsent]
  simp [hqueue]

theorem Orderly.nacked (horderly : msg.Orderly) (h : msg.Tracked)
    (hsettles : msg.Settles after (· ∈ indices) freed) (hview : after.ackView = msg.ackView)
    (hasked : ∀ idx ∈ indices, msg.isAcked idx = false → idx ∈ after.retransmitQueue)
    (htail : msg.NamesTail (· ∈ indices)) : after.Orderly := by
  refine horderly.settles hsettles (fun idx hfresh => ?_) htail
  obtain ⟨hunacked, hunsent, hunasked⟩ := hfresh
  have hqueue : idx ∈ after.retransmitQueue ↔ idx ∈ indices := by
    refine ⟨fun hmem => ?_, fun hmem => hasked idx hmem hunacked⟩
    rcases hsettles.added idx hmem with hbefore | hflight | hnamed
    · exact absurd hbefore hunasked
    · exact absurd ⟨hunacked, hunsent, hunasked⟩ (h.not_fresh (.inl hflight))
    · exact hnamed
  unfold Fresh
  rw [isAcked_congr hview, hunacked, hsettles.info, hunsent, hqueue]
  simp

end OutgoingMessage

namespace SequenceSession

/-- An Ack or Nack that names an unsent fragment of a message names all unsent fragments
behind it. -/
def NamesTails (session : SequenceSession C) : Operation → Prop
  | .receive (.ack ack) _ _ _ => ∀ msg, session.outgoing.get ack.messageId = some msg →
      msg.NamesTail (· ∈ (msg.collectAckedIndices ack.baseIndex ack.bitmask).1)
  | .receive (.nack nack) _ _ _ => ∀ msg, session.outgoing.get nack.messageId = some msg →
      msg.NamesTail (· ∈ nack.missingIndices)
  | _ => True

/-- Every outgoing message is tracked and orderly. -/
def AllOrderly (session : SequenceSession C) : Prop :=
  ∀ id msg, session.outgoing.get id = some msg → msg.Tracked ∧ msg.Orderly

variable [FloatOps] [CongestionControl C]

theorem AllOrderly.step {session : SequenceSession C} (h : session.AllOrderly)
    {operation : Operation} (hok : session.NamesTails operation) :
    (session.step operation).AllOrderly := by
  have htracked : session.AllTracked := fun id msg hget => (h id msg hget).1
  have hcareless : ∀ now nowMs answers, operation = .call (.flush now nowMs answers) → False →
      session.probesAcked now = false := fun _ _ _ _ => False.elim
  refine (session.step_move htracked operation).forall_messages hcareless ?_ ?_ ?_ ?_ ?_ h
  · intro messageType payload mtu now msg hnew
    obtain ⟨hmsg, hnext, -, hfresh⟩ := OutgoingMessage.new_fresh hnew
    refine ⟨hmsg, fun idx hidx => ?_⟩
    have hlt := (OutgoingMessage.isAcked_eq_false.mp hidx.1).1
    rw [hnext]
    exact ⟨Nat.zero_le idx, fun other _ hle => hfresh other (hle.trans_lt hlt)⟩
  · rintro msg timeout ⟨hmsg, horderly⟩
    exact ⟨hmsg.retimed timeout, horderly⟩
  · rintro msg idx after ⟨hmsg, horderly⟩ hsends
    exact ⟨hsends.tracked hmsg, horderly.sends hmsg hsends⟩
  · rintro ack now systemMs jitter msg after freed rfl hget ⟨hmsg, horderly⟩ hsettles hacked
    exact ⟨hsettles.tracked, horderly.acked hmsg hsettles hacked (hok msg hget)⟩
  · rintro nack now systemMs jitter msg after freed rfl hget ⟨hmsg, horderly⟩ hsettles hview hasked
    exact ⟨hsettles.tracked, horderly.nacked hmsg hsettles hview hasked (hok msg hget)⟩

/-- As long as the peer names unsent fragments only together with all unsent fragments
behind them, no message that is not completely acknowledged is stuck. -/
theorem outgoing_canProgress (config : SessionConfig C) (operations : List Operation)
    (hmeets : RunMeets SequenceSession.step NamesTails (.new config) operations)
    {id : MessageId} {msg : OutgoingMessage}
    (hget : (runFrom SequenceSession.step (.new config) operations).outgoing.get id = some msg)
    (hall : msg.allAcked = false) : msg.canProgress = true := by
  have horderly : (runFrom SequenceSession.step (.new config) operations).AllOrderly :=
    hmeets.invariant AllOrderly (fun _ _ h hok => h.step hok) nofun
  obtain ⟨hmsg, hfresh⟩ := horderly id msg hget
  exact hfresh.canProgress hmsg hall

end SequenceSession

/-- With its first fragment acknowledged, the second one in flight. -/
theorem outgoing_canProgress_half :
    ((referenceSession halfAcked).outgoing.get 5).any OutgoingMessage.canProgress = true := by
  have hsome : ((referenceSession halfAcked).outgoing.get 5).any (!·.allAcked) = true := by
    decide +kernel
  have hsent : ((referenceSession (halfAcked.take 2)).outgoing.get 5).all (fun msg =>
      (msg.collectAckedIndices 1 0).1.all fun idx =>
        (msg.fragmentState idx).deliveryInfo.isSome) = true := by
    decide +kernel
  obtain ⟨msg, hget, hall⟩ := (Option.any_eq_true _ _).mp hsome
  rw [hget, Option.any_some]
  refine @SequenceSession.outgoing_canProgress FixedWindow exactFloatOps _ (referenceConfig .left)
    halfAcked ⟨trivial, trivial, ?_, trivial⟩ 5 msg hget (by simpa using hall)
  intro sent hget' idx other hfresh hnamed
  simp only [halfAcked, List.take_succ_cons, List.take_zero, runFrom_cons, runFrom_nil] at hsent
  rw [hget', Option.all_some, List.all_eq_true] at hsent
  exact absurd (hfresh.2.1.symm.trans (hsent idx hnamed)) (by decide)

/-- The first of two fragments is acknowledged before it is sent. -/
def ackedUnsent : List Operation :=
  [.call (.sendMessage .merkleNode (List.replicate 1400 0) 0),
    .receive (.ack ⟨5, 1, 0, 10⟩) 1000 0 0]

/-- The message waits for nothing and sends nothing. -/
theorem message_stuck :
    ((referenceSession ackedUnsent).outgoing.get 5).any
      (fun msg => !msg.allAcked && !msg.canProgress) = true := by
  decide +kernel

end MerkleTox.Sequenced
