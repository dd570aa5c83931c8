import MerkleTox.Sequenced.Integrity

/-! # At-most-once delivery

A receiver recognises a duplicate of a completed message by its record of
completions, or by the distance of its id to the highest id received. The record
is bounded in time and size, and the distance rule leaves a gap: ids up to 32
behind the highest one, or half the id space away from it, are accepted again.
Outside the gap a message is completed at most once (`completed_at_most_once`);
inside it a late duplicate is delivered a second time (`completed_twice`).
-/

namespace MerkleTox.Sequenced

open Proto Library

variable {C : Type}

def SessionEvent.completes (id : MessageId) : SessionEvent → Bool
  | .messageCompleted other _ _ => other = id
  | _ => false

/-- How often a party has completed an id on account of data packets. -/
def Party.completions (party : Party C) (id : MessageId) : Nat :=
  party.dataEvents.countP (SessionEvent.completes id)

/-- The session still recognises an id it has completed: the completion is on
record, or the id is the highest one received or more than 32 behind it. -/
def SequenceSession.Recognises (session : SequenceSession C) (id : MessageId) : Prop :=
  session.completedIncoming.contains id = true ∨
    ∃ highest, session.highestReceivedId = some highest ∧
      (id = highest ∨ (32 < (highest - id).toNat ∧ (highest - id).toNat < 2 ^ 31))

/-- Deliveries to the receiver repeat a completed message only while the receiver
still recognises its id. -/
def RepeatsRecognised (receiver : Side) (network : Network C) : Command → Prop
  | .deliver side index _ _ _ => side = receiver →
      ∀ id fragment total data,
        (network.wire side.other)[index]? = some (.data id fragment total data) →
        0 < (network.party side).completions id → (network.party side).session.Recognises id
  | .call _ _ => True

/-- A message is completed at most once, and afterwards it is not being reassembled. -/
def DeliveredOnce (party : Party C) : Prop :=
  ∀ id, party.completions id ≤ 1 ∧
    (0 < party.completions id → party.session.buffered id = none)

variable {session : SequenceSession C} {extra : List SessionEvent} {party party' : Party C}

/-- An id that the session recognises is on record or ancient. -/
theorem SequenceSession.Recognises.not_processed {id : MessageId} (h : session.Recognises id)
    (hfresh : session.completedIncoming.get id = none) (hbuffered : session.buffered id = none) :
    session.isAncientMessage id = true := by
  have hrecord : session.completedIncoming.contains id = false := by
    rw [AssocMap.contains_eq, hfresh]
    rfl
  have hincoming := SequenceSession.buffered_eq_none_iff.mp hbuffered
  rcases h with hcontains | ⟨highest, hhighest, hdistance⟩
  · rw [hrecord] at hcontains
    cases hcontains
  · simp only [isAncientMessage, hhighest, hincoming, hrecord]
    rcases hdistance with rfl | ⟨hfar, hnear⟩
    · simp
    · have hdiff : (id - highest).toNat = 2 ^ 32 - (highest - id).toNat := by
        rw [BitVec.toNat_sub, BitVec.toNat_sub] at *
        omega
      rw [if_pos (by rw [hdiff]; omega)]
      simp only [Bool.or_self, Bool.not_false, Bool.true_and, Bool.or_eq_true, decide_eq_true_eq]
      exact .inr hfar

theorem countP_completionEvents (id other : MessageId) (buffer : FragmentBuffer) :
    (SequenceSession.completionEvents id buffer).countP (SessionEvent.completes other) ≤
      if other = id then 1 else 0 := by
  simp only [SequenceSession.completionEvents]
  split
  next envelope henvelope =>
    simp only [List.countP_singleton, SessionEvent.completes]
    by_cases heq : other = id
    · simp [heq]
    · simp [heq, Ne.symm heq]
  next => simp

theorem countP_windowChanges (hextra : Party.OnlyWindowChanges extra) (id : MessageId) :
    extra.countP (SessionEvent.completes id) = 0 := by
  rw [List.countP_eq_zero]
  intro event hevent
  obtain ⟨cwnd, rfl⟩ := hextra event hevent
  simp [SessionEvent.completes]

/-- The completions after a data packet are those before and the new ones. -/
theorem completions_data {id : MessageId} {index total : Nat} {data : Bytes}
    (new : List SessionEvent) (hdeliveries : party'.deliveries = party.deliveries ++
      [⟨.data id index total data, (session.events ++ extra).drop party.session.events.length⟩])
    (hnew : session.events = party.session.events ++ new) (hextra : Party.OnlyWindowChanges extra)
    (other : MessageId) :
    party'.completions other =
      party.completions other + new.countP (SessionEvent.completes other) := by
  rw [Party.completions, dataEvents_append_data hdeliveries, hnew, List.append_assoc,
    List.drop_left, List.countP_append, List.countP_append, countP_windowChanges hextra]
  rfl

theorem DeliveredOnce.of_same (h : DeliveredOnce party)
    (hevents : party'.dataEvents = party.dataEvents)
    (hbuffered : ∀ id, party.session.buffered id = none → party'.session.buffered id = none) :
    DeliveredOnce party' := by
  intro id
  have hcount : party'.completions id = party.completions id := by
    rw [Party.completions, hevents]
    rfl
  rw [hcount]
  exact ⟨(h id).1, fun hpos => hbuffered id ((h id).2 hpos)⟩

theorem DeliveredOnce.call {action : Action} {packets : List Packet} (h : DeliveredOnce party)
    (houtcome : Party.CallOutcome party action party' packets) : DeliveredOnce party' := by
  cases houtcome with
  | sent messageType data now =>
      refine h.of_same rfl fun id hid => ?_
      exact (buffered_congr (receiverView_sendMessageAt _ messageType data now) id).trans hid
  | transmitted action session' packets hnext hview hout hpackets =>
      exact h.of_same rfl fun id hid => (buffered_congr hview id).trans hid
  | cleaned now =>
      obtain ⟨-, -, hincoming, -⟩ := party.session.cleanup_spec now
      refine h.of_same rfl fun id hid => ?_
      rw [SequenceSession.buffered, Option.map_eq_none_iff] at hid
      rw [SequenceSession.buffered, Party.withSession, hincoming id, hid]
      rfl

section Steps

variable [FloatOps] [CongestionControl C]

theorem DeliveredOnce.data {party : Party C} (h : DeliveredOnce party) {id : MessageId}
    {index total : Nat} {data : Bytes}
    (hrepeat : 0 < party.completions id → party.session.Recognises id) (now : Instant)
    (systemMs jitter : Int) :
    DeliveredOnce (party.receive (.data id index total data) now systemMs jitter).1 := by
  obtain ⟨middle, extra, houtcome, hview, -, -, -, hdeliveries, hextra⟩ :=
    party.receive_data id index total data now systemMs jitter
  set party' := (party.receive (.data id index total data) now systemMs jitter).1
  have hmiddle := buffered_congr hview
  have hcount := fun new hnew =>
    completions_data new hdeliveries hnew hextra
  -- without new events, only the buffers matter
  have hquiet : (∀ other, 0 < party.completions other → party.session.buffered other = none →
      middle.buffered other = none) → middle.events = party.session.events →
      DeliveredOnce party' := by
    intro hbuffered hevents other
    rw [hcount [] (by simpa using hevents) other]
    refine ⟨(h other).1, fun hpos => ?_⟩
    rw [hmiddle other]
    exact hbuffered other hpos ((h other).2 hpos)
  cases houtcome with
  | resent entry rwnd hentry hsession hreplies =>
      exact hquiet (fun other _ hother => by rw [hsession]; exact hother) (by rw [hsession])
  | refused hbuffered hcompleted hhighest hevents hreplies =>
      exact hquiet (fun other _ hother => (hbuffered other).trans hother) hevents
  | processed messageId before hfresh hrecent hopens hother heffect =>
      -- a completed id would have been recognised
      have hfirst : party.completions id = 0 := by
        by_contra hne
        have hpos := Nat.pos_of_ne_zero hne
        have hancient := (hrepeat hpos).not_processed hfresh ((h id).2 hpos)
        exact absurd (hancient.symm.trans hrecent) (by decide)
      cases heffect with
      | dropped hbuffered hcompleted hevents hreplies hdiscards =>
          refine hquiet (fun other _ hnone => ?_) hevents
          by_cases hne : other = id
          · rw [hne, hbuffered]
          · exact (hother other hne).trans hnone
      | kept after hafter hbuffered hcompleted hevents hreplies =>
          refine hquiet (fun other hpos hnone => ?_) hevents
          by_cases hne : other = id
          · rw [hne, hfirst] at hpos
            exact absurd hpos (lt_irrefl 0)
          · exact (hother other hne).trans hnone
      | delivered after rwnd hafter hbuffered hcompleted hevents hreplies =>
          intro other
          have hnew := countP_completionEvents id other after
          rw [hcount _ hevents other]
          by_cases hne : other = id
          · subst hne
            rw [if_pos rfl] at hnew
            exact ⟨by omega, fun _ => (hmiddle other).trans hbuffered⟩
          · rw [if_neg hne] at hnew
            refine ⟨by have := (h other).1; omega, fun hpos => ?_⟩
            exact ((hmiddle other).trans (hother other hne)).trans ((h other).2 (by omega))

theorem DeliveredOnce.receive {party : Party C} (h : DeliveredOnce party) {packet : Packet}
    (hrepeat : ∀ id index total data, packet = .data id index total data →
      0 < party.completions id → party.session.Recognises id) (now : Instant)
    (systemMs jitter : Int) :
    DeliveredOnce (party.receive packet now systemMs jitter).1 := by
  have hcontrol : Party.IsControl packet →
      DeliveredOnce (party.receive packet now systemMs jitter).1 := by
    intro hpacket
    obtain ⟨-, hview, -, -, -, events, hdeliveries, -⟩ :=
      party.receive_control hpacket now systemMs jitter
    refine h.of_same (dataEvents_append_other (fun id index total data heq => ?_) hdeliveries)
      fun id hid => (buffered_congr hview id).trans hid
    rw [heq] at hpacket
    exact hpacket
  cases packet with
  | data id index total data =>
      exact h.data (hrepeat id index total data rfl) now systemMs jitter
  | ack ack =>
      obtain ⟨-, middle, extra, -, hview, -, -, -, hdeliveries, -⟩ :=
        party.receive_ack ack now systemMs jitter
      exact h.of_same (dataEvents_append_other (by simp) hdeliveries)
        fun id hid => (buffered_congr hview id).trans hid
  | nack | ping | pong | datagram => exact hcontrol trivial

theorem DeliveredOnce.step {network : Network C} {receiver : Side} {command : Command}
    (h : DeliveredOnce (network.party receiver))
    (hmeets : RepeatsRecognised receiver network command) :
    DeliveredOnce ((network.step command).party receiver) := by
  cases command with
  | call side action =>
      by_cases hside : receiver = side
      · subst hside
        rw [Network.step, Network.party_put_self]
        exact h.call ((network.party receiver).call_outcome action)
      · simpa [Network.step, Network.put, hside] using h
  | deliver side index now systemMs jitter =>
      simp only [Network.step]
      split
      next => exact h
      next packet hpacket =>
        by_cases hside : receiver = side
        · subst hside
          rw [Network.party_put_self]
          exact h.receive (fun id fragment total data heq =>
            hmeets rfl id fragment total data (heq ▸ hpacket)) now systemMs jitter
        · simpa [Network.put, hside] using h

/-- At-most-once delivery, in every state of every run in which a completed message
is repeated only while its id is recognised. -/
theorem completed_at_most_once (config : Side → SessionConfig C) (receiver : Side)
    (commands : List Command)
    (hmeets : RunMeets Network.step (RepeatsRecognised receiver) (Network.new config) commands)
    (id : MessageId) : ((Network.run config commands).party receiver).completions id ≤ 1 := by
  have hinit : DeliveredOnce ((Network.new config).party receiver) := by
    intro other
    simp [Party.completions, Party.dataEvents, Network.new, Party.new]
  have honce := hmeets.invariant
    (fun network : Network C => DeliveredOnce (network.party receiver))
    (fun network command h hok => h.step hok) hinit
  exact (honce id).1

end Steps

/-- A data packet delivered twice while its completion is on record. -/
def promptDuplicate : List Command :=
  [.call .left (.sendMessage .merkleNode [1, 2, 3] 0), .call .left (.flush 0 0 []),
    .deliver .right 1 1000 0 0, .deliver .right 1 2000 0 0]

theorem completed_at_most_once_prompt :
    ((referenceRun promptDuplicate).party .right).completions 5 ≤ 1 := by
  refine @completed_at_most_once FixedWindow exactFloatOps _ referenceConfig .right
    promptDuplicate ⟨trivial, trivial, ?_, ?_, trivial⟩ 5
  · intro _ id fragment total data _ hpos
    have hnone : ((referenceRun (promptDuplicate.take 2)).party .right).dataEvents = [] := by
      decide +kernel
    have hzero : ((referenceRun (promptDuplicate.take 2)).party .right).completions id = 0 := by
      rw [Party.completions, hnone]
      rfl
    exact absurd hpos (by rw [Nat.not_lt]; exact le_of_eq hzero)
  · intro _ id fragment total data hpacket _
    have hwire : ((referenceRun (promptDuplicate.take 3)).wire .left)[1]? =
        some (.data 5 0 1 [0x92, 0x05, 0xc4, 3, 1, 2, 3]) := by
      decide +kernel
    have hsome := hwire.symm.trans hpacket
    cases hsome
    have hrecord : ((referenceRun (promptDuplicate.take 3)).party
        .right).session.completedIncoming.contains 5 = true := by
      decide +kernel
    exact .inl hrecord

/-- Two one-fragment messages, a clean-up 31 seconds later, and a duplicate of the
first data packet. -/
def lateDuplicate : List Command :=
  [.call .left (.sendMessage .merkleNode [1, 2, 3] 0),
    .call .left (.sendMessage .merkleNode [4] 0), .call .left (.flush 0 0 []),
    .deliver .right 1 1000 0 0, .deliver .right 2 2000 0 0,
    .call .right (.cleanup (fromSecs 31 : Nat)),
    .deliver .right 1 (fromSecs 31 : Nat) 0 0]

/-- The duplicate completes the message a second time. -/
theorem completed_twice : ((referenceRun lateDuplicate).party .right).completions 5 = 2 := by
  decide +kernel

end MerkleTox.Sequenced
