import MerkleTox.Sequenced.Clocked
import MerkleTox.Sequenced.Readiness

/-! # The next wake-up

`next_wakeup` tells the owner of a session when to flush it again. It decides with its own
conditions what `flush_packets` decides with others. The reasons for which it names the present
are listed in `SequenceSession.Due`, and what a flush finds to send in
`SequenceSession.Sendable`; where the lists differ, the owner spins or a transfer stalls.
-/

namespace MerkleTox.Sequenced

open Proto Library

variable {C : Type}

namespace SequenceSession

section Deadlines

variable (session : SequenceSession C) (now : Instant)

/-- The fragment of an in-flight entry was not sent again since. -/
def isCurrent (msg : OutgoingMessage) (entry : Nat × Instant) : Bool :=
  (msg.fragmentState entry.1).lastSent.all fun sent => sent ≤ entry.2

def rtoDeadline (msg : OutgoingMessage) : Option Instant :=
  (msg.inFlightQueue.head?.filter (isCurrent msg)).map fun entry =>
    entry.2 + (session.rtt.rto * 2 ^ min 6 (msg.fragmentState entry.1).rtoBackoff : Nat)

def ackDeadline (pending : Nat × Instant) : Instant := pending.2 + (delayedAckTimeout : Nat)

def ackWaits (pending : Nat × Instant) : Bool :=
  decide (2 ≤ pending.1) || decide (ackDeadline pending ≤ now)

def nackDeadline (pendingAt : Instant) : Instant :=
  pendingAt + (max (session.rtt.srtt / 4) (fromMillis 10) : Nat)

def probeDeadline : Instant :=
  max (session.lastRwndProbe + (session.rtt.rtoWithBackoff session.zeroWindowProbesSent : Nat))
    session.nextPacingTime

variable [FloatOps]

def tailThreshold : Duration := max (FloatOps.mulF32 session.rtt.srtt (3 / 2)) (fromMillis 10)

def tailDeadline (msg : OutgoingMessage) : Option Instant :=
  (msg.inFlightQueue.getLast?.filter (isCurrent msg)).map fun entry =>
    entry.2 + (session.tailThreshold : Nat)

/-- The deadlines, in the order in which `next_wakeup` looks at them. -/
def deadlines : List Instant :=
  (if now < session.nextPacingTime then [session.nextPacingTime] else []) ++
  session.outgoing.values.filterMap session.rtoDeadline ++
  (if 0 < session.inFlight then session.outgoing.values.filterMap session.tailDeadline else []) ++
  (if session.peerRwnd < estimatedPayloadSize ∧ !session.outgoing.isEmpty then
    [session.probeDeadline] else []) ++
  session.pendingAcks.values.map ackDeadline ++
  session.pendingNacks.values.map session.nackDeadline ++
  [session.lastPing + (session.pingInterval : Nat),
    session.lastActivity + (connectionTimeout : Nat)]

variable [CongestionControl C]

/-- The tests for which `next_wakeup` returns the present before it looks at the timers. -/
def sendsAtOnce : Bool :=
  decide (session.nextPacingTime ≤ now) &&
    (!session.datagramQueue.isEmpty ||
      decide (session.inFlight <
        CongestionControl.cwnd session.congestionControl * estimatedPayloadSize) &&
      (session.outgoing.values.any (fun msg => !msg.retransmitQueue.isEmpty) ||
        session.outgoing.values.any fun msg =>
          decide (msg.nextFragment < msg.numFragments) &&
          decide (session.inFlight + msg.fragmentLen msg.nextFragment ≤ session.peerRwnd)))

/-- The pending replies return the present, too, as soon as one of them is due. -/
def nextWakeup : Instant :=
  if session.sendsAtOnce now || session.pendingAcks.values.any (ackWaits now) ||
      session.pendingNacks.values.any fun pendingAt => decide (session.nackDeadline pendingAt ≤ now)
    then now
  else max ((session.deadlines now).foldl min (now + (fromSecs 3600 : Nat))) now

end Deadlines

/-! ## Reasons to wake up -/

section Reasons

variable [FloatOps] [CongestionControl C] (session : SequenceSession C) (now : Instant)

/-- The reasons to wake up at once that a flush without packets leaves as they are. -/
inductive Standing : Prop
  | retransmission {msg : OutgoingMessage} (hpaced : session.nextPacingTime ≤ now)
      (hopen : session.cwndOpen = true) (hmsg : msg ∈ session.outgoing.values)
      (hqueue : msg.retransmitQueue ≠ [])
  | fresh {msg : OutgoingMessage} (hpaced : session.nextPacingTime ≤ now)
      (hmsg : msg ∈ session.outgoing.values) (hnext : msg.nextFragment < msg.numFragments)
      (hfits : session.fits (msg.fragmentLen msg.nextFragment) = true)
  | timeout {msg : OutgoingMessage} {deadline : Instant} (hmsg : msg ∈ session.outgoing.values)
      (hfront : session.rtoDeadline msg = some deadline) (hdue : deadline ≤ now)
  | probe (hclosed : session.peerRwnd < estimatedPayloadSize)
      (hmsg : session.outgoing.isEmpty = false) (hdue : session.probeDeadline ≤ now)
  | inactivity (hdue : session.lastActivity + (connectionTimeout : Nat) ≤ now)

/-- The reasons for which `next_wakeup` names the present. -/
inductive Due : Prop
  | standing (h : session.Standing now)
  | datagram (hpaced : session.nextPacingTime ≤ now) (hqueue : session.datagramQueue ≠ [])
  | tail {msg : OutgoingMessage} {deadline : Instant} (hflight : 0 < session.inFlight)
      (hmsg : msg ∈ session.outgoing.values)
      (hlast : session.tailDeadline msg = some deadline) (hdue : deadline ≤ now)
  | ack {pending : Nat × Instant} (hpending : pending ∈ session.pendingAcks.values)
      (hdue : ackWaits now pending = true)
  | nack {pendingAt : Instant} (hpending : pendingAt ∈ session.pendingNacks.values)
      (hdue : session.nackDeadline pendingAt ≤ now)
  | ping (hdue : session.lastPing + (session.pingInterval : Nat) ≤ now)

/-- What a flush finds to send. -/
inductive Sendable : Prop
  | ping (hdue : session.lastPing + (session.pingInterval : Nat) ≤ now)
  | datagram (hpaced : session.nextPacingTime ≤ now) (hqueue : session.datagramQueue ≠ [])
  | probe {msg : OutgoingMessage} (hclosed : session.peerRwnd < estimatedPayloadSize)
      (hdue : session.probeDeadline ≤ now) (hmsg : msg ∈ session.outgoing.values)
      (htarget : msg.retransmitQueue ≠ [] ∨ msg.nextFragment < msg.numFragments ∨
        msg.inFlightQueue ≠ [])
  | fragment {id : MessageId} (hpicked : (session.scheduler.nextMessage
      (FlushState.fragmentReady session now false)).1 = some id)
  | tail {msg : OutgoingMessage} {entry : Nat × Instant} (hflight : 0 < session.inFlight)
      (hmsg : msg ∈ session.outgoing.values) (hlast : msg.inFlightQueue.getLast? = some entry)
      (hdue : entry.2 + (session.tailThreshold : Nat) ≤ now)
  | ack {id : MessageId} {pending : Nat × Instant}
      (hpending : session.pendingAcks.get id = some pending) (hdue : ackWaits now pending = true)
      (hknown : session.incoming.contains id = true ∨ session.completedIncoming.contains id = true)
  | nack {id : MessageId} {pendingAt : Instant} {reassembler : MessageReassembler}
      (hpending : session.pendingNacks.get id = some pendingAt)
      (hdue : session.nackDeadline pendingAt ≤ now)
      (hknown : session.incoming.get id = some reassembler)
      (hhole : (reassembler.createNack reassembler.buffer.baseIndex).isSome = true)

end Reasons

section Times

variable {session : SequenceSession C} {now : Instant}

theorem foldl_min_le_iff (times : List Instant) (first bound : Instant) :
    times.foldl min first ≤ bound ↔ first ≤ bound ∨ ∃ time ∈ times, time ≤ bound := by
  induction times generalizing first with
  | nil => simp
  | cons time rest ih => rw [List.foldl_cons, ih, min_le_iff, List.exists_mem_cons_iff, or_assoc]

section Windows

variable [CongestionControl C]

theorem cwndOpen_iff : session.cwndOpen = true ↔ session.inFlight <
    CongestionControl.cwnd session.congestionControl * estimatedPayloadSize := by
  rw [cwndOpen, decide_eq_true_eq, Nat.div_lt_iff_lt_mul (by decide)]

theorem fits_iff {len : Nat} : session.fits len = true ↔
    session.cwndOpen = true ∧ session.inFlight + len ≤ session.peerRwnd := by
  rw [fits, Bool.and_eq_true, decide_eq_true_eq]

theorem sendsAtOnce_iff : session.sendsAtOnce now = true ↔ session.nextPacingTime ≤ now ∧
    (session.datagramQueue ≠ [] ∨ session.cwndOpen = true ∧
      ((∃ msg ∈ session.outgoing.values, msg.retransmitQueue ≠ []) ∨
        ∃ msg ∈ session.outgoing.values, msg.nextFragment < msg.numFragments ∧
          session.inFlight + msg.fragmentLen msg.nextFragment ≤ session.peerRwnd)) := by
  rw [cwndOpen_iff, sendsAtOnce]
  simp only [Bool.and_eq_true, Bool.or_eq_true, decide_eq_true_eq, List.any_eq_true,
    Bool.not_eq_true', List.isEmpty_eq_false_iff]

end Windows

variable [FloatOps]

/-- One of the deadlines has passed. -/
theorem exists_deadline_iff : (∃ time ∈ session.deadlines now, time ≤ now) ↔
    (∃ msg ∈ session.outgoing.values, ∃ deadline, session.rtoDeadline msg = some deadline ∧
      deadline ≤ now) ∨
    (0 < session.inFlight ∧ ∃ msg ∈ session.outgoing.values, ∃ deadline,
      session.tailDeadline msg = some deadline ∧ deadline ≤ now) ∨
    ((session.peerRwnd < estimatedPayloadSize ∧ session.outgoing.isEmpty = false) ∧
      session.probeDeadline ≤ now) ∨
    (∃ pending ∈ session.pendingAcks.values, ackDeadline pending ≤ now) ∨
    (∃ pendingAt ∈ session.pendingNacks.values, session.nackDeadline pendingAt ≤ now) ∨
    session.lastPing + (session.pingInterval : Nat) ≤ now ∨
    session.lastActivity + (connectionTimeout : Nat) ≤ now := by
  have hpacing : ¬ ∃ time ∈ (if now < session.nextPacingTime then [session.nextPacingTime]
      else []), time ≤ now := by
    split
    next hlater => simpa using hlater
    next => simp
  have hdeadlines : ∀ f : OutgoingMessage → Option Instant,
      (∃ time ∈ session.outgoing.values.filterMap f, time ≤ now) ↔
        ∃ msg ∈ session.outgoing.values, ∃ deadline, f msg = some deadline ∧ deadline ≤ now := by
    intro f
    simp only [List.mem_filterMap]
    constructor
    · rintro ⟨time, ⟨msg, hmsg, hf⟩, hdue⟩
      exact ⟨msg, hmsg, time, hf, hdue⟩
    · rintro ⟨msg, hmsg, time, hf, hdue⟩
      exact ⟨time, ⟨msg, hmsg, hf⟩, hdue⟩
  have hguarded : ∀ (guard : Prop) [Decidable guard] (times : List Instant),
      (∃ time ∈ (if guard then times else []), time ≤ now) ↔
        guard ∧ ∃ time ∈ times, time ≤ now := by
    intro guard _ times
    split
    next hguard => simp [hguard]
    next hguard => simp [hguard]
  have hmapped : ∀ {α : Type} (f : α → Instant) (values : List α),
      (∃ time ∈ values.map f, time ≤ now) ↔ ∃ value ∈ values, f value ≤ now := by
    intro α f values
    simp
  unfold deadlines
  simp only [List.mem_append, or_and_right, exists_or, hpacing, hdeadlines, hguarded, hmapped,
    List.mem_cons, List.not_mem_nil, or_false, exists_eq_left, false_or, Bool.not_eq_true',
    or_assoc]

variable [CongestionControl C]

theorem le_nextWakeup : now ≤ session.nextWakeup now := by
  unfold nextWakeup
  split
  next => exact le_refl now
  next => exact le_max_right _ now

/-- `next_wakeup` names the present exactly for the reasons listed. -/
theorem nextWakeup_le_iff : session.nextWakeup now ≤ now ↔ session.Due now := by
  -- The default of an hour is never now, so a wakeup that is now comes from a reason to send or a
  -- deadline.
  have hlate : ¬ now + (fromSecs 3600 : Nat) ≤ now := by
    have hpos : 0 < fromSecs 3600 := by decide
    exact not_le.mpr (Int.lt_add_of_pos_right now (Int.natCast_pos.mpr hpos))
  have hsplit : session.nextWakeup now ≤ now ↔ (session.sendsAtOnce now = true ∨
      (∃ pending ∈ session.pendingAcks.values, ackWaits now pending = true) ∨
      ∃ pendingAt ∈ session.pendingNacks.values, session.nackDeadline pendingAt ≤ now) ∨
      ∃ time ∈ session.deadlines now, time ≤ now := by
    unfold nextWakeup
    split
    next hreturns =>
      refine iff_of_true (le_refl now) (.inl ?_)
      simpa only [Bool.or_eq_true, List.any_eq_true, decide_eq_true_eq, or_assoc] using hreturns
    next hreturns =>
      simp only [Bool.or_eq_true, List.any_eq_true, decide_eq_true_eq, or_assoc] at hreturns
      rw [max_le_iff, foldl_min_le_iff, or_iff_right hlate, and_iff_left (le_refl now),
        or_iff_right hreturns]
  rw [hsplit, sendsAtOnce_iff, exists_deadline_iff]
  constructor
  · rintro ((⟨hpaced, hqueue | ⟨hopen, ⟨msg, hmsg, hqueue⟩ | ⟨msg, hmsg, hnext, hroom⟩⟩⟩ |
      ⟨pending, hpending, hdue⟩ | ⟨pendingAt, hpending, hdue⟩) |
      ⟨msg, hmsg, deadline, hfront, hdue⟩ | ⟨hflight, msg, hmsg, deadline, hlast, hdue⟩ |
      ⟨⟨hclosed, hmsg⟩, hdue⟩ | ⟨pending, hpending, hdue⟩ | ⟨pendingAt, hpending, hdue⟩ | hdue |
      hdue)
    · exact .datagram hpaced hqueue
    · exact .standing (.retransmission hpaced hopen hmsg hqueue)
    · exact .standing (.fresh hpaced hmsg hnext (fits_iff.mpr ⟨hopen, hroom⟩))
    · exact .ack hpending hdue
    · exact .nack hpending hdue
    · exact .standing (.timeout hmsg hfront hdue)
    · exact .tail hflight hmsg hlast hdue
    · exact .standing (.probe hclosed hmsg hdue)
    · exact .ack hpending (by rw [ackWaits, decide_eq_true hdue, Bool.or_true])
    · exact .nack hpending hdue
    · exact .ping hdue
    · exact .standing (.inactivity hdue)
  · rintro (h | ⟨hpaced, hqueue⟩ | ⟨hflight, hmsg, hlast, hdue⟩ | ⟨hpending, hdue⟩ |
      ⟨hpending, hdue⟩ | hdue)
    · cases h with
      | retransmission hpaced hopen hmsg hqueue =>
          exact .inl (.inl ⟨hpaced, .inr ⟨hopen, .inl ⟨_, hmsg, hqueue⟩⟩⟩)
      | fresh hpaced hmsg hnext hfits =>
          obtain ⟨hopen, hroom⟩ := fits_iff.mp hfits
          exact .inl (.inl ⟨hpaced, .inr ⟨hopen, .inr ⟨_, hmsg, hnext, hroom⟩⟩⟩)
      | timeout hmsg hfront hdue => exact .inr (.inl ⟨_, hmsg, _, hfront, hdue⟩)
      | probe hclosed hmsg hdue => exact .inr (.inr (.inr (.inl ⟨⟨hclosed, hmsg⟩, hdue⟩)))
      | inactivity hdue => exact .inr (.inr (.inr (.inr (.inr (.inr (.inr hdue))))))
    · exact .inl (.inl ⟨hpaced, .inl hqueue⟩)
    · exact .inr (.inr (.inl ⟨hflight, _, hmsg, _, hlast, hdue⟩))
    · exact .inl (.inr (.inl ⟨_, hpending, hdue⟩))
    · exact .inl (.inr (.inr ⟨_, hpending, hdue⟩))
    · exact .inr (.inr (.inr (.inr (.inr (.inr (.inl hdue))))))

end Times

end SequenceSession

/-! ## What a flush sends -/

namespace FlushState

open SequenceSession

/-- The transport accepts everything from now on, and nothing has been sent yet. -/
def accepting (session : SequenceSession C) : FlushState C := ⟨session, [], []⟩

/-- The reason is there and something is sent, or it is not there and nothing is sent. -/
def Answers (reason : Prop) (outcome : FlushState C) (quiet : SequenceSession C) : Prop :=
  (reason ∧ outcome.accepted ≠ []) ∨ (¬ reason ∧ outcome = accepting quiet)

section Stages

theorem le_toNat_sub_iff {duration : Nat} (hpos : 0 < duration) (now earlier : Int) :
    duration ≤ (now - earlier).toNat ↔ earlier + duration ≤ now := by omega

theorem le_durationSince_iff {duration : Duration} (hpos : 0 < duration) {now earlier : Instant} :
    duration ≤ durationSince now earlier ↔ earlier + (duration : Nat) ≤ now :=
  le_toNat_sub_iff hpos now earlier

theorem probeDeadline_le_iff {session : SequenceSession C} {now : Instant}
    (hrto : 0 < session.rtt.rto) : session.probeDeadline ≤ now ↔
      session.nextPacingTime ≤ now ∧
        session.rtt.rtoWithBackoff session.zeroWindowProbesSent ≤
          durationSince now session.lastRwndProbe := by
  have hpos : 0 < session.rtt.rtoWithBackoff session.zeroWindowProbesSent :=
    Nat.mul_pos hrto (Nat.two_pow_pos _)
  rw [probeDeadline, max_le_iff, le_durationSince_iff hpos, and_comm]

variable (session : SequenceSession C) (now : Instant)

theorem flushPing_answers (nowMs : Int) :
    Answers (session.lastPing + (session.pingInterval : Nat) ≤ now)
      ((accepting session).flushPing now nowMs) session := by
  have hpos : 0 < session.pingInterval := by
    unfold pingInterval
    split <;> decide
  unfold flushPing
  dsimp only [accepting]
  split
  next hdue => exact .inl ⟨(le_durationSince_iff hpos).mp hdue, List.cons_ne_nil _ _⟩
  next hdue => exact .inr ⟨mt (le_durationSince_iff hpos).mpr hdue, rfl⟩

variable [CongestionControl C]

theorem flushDatagrams_answers :
    Answers (session.nextPacingTime ≤ now ∧ session.datagramQueue ≠ [])
      (flushDatagrams now session.datagramQueue.length (accepting session)) session := by
  cases hlength : session.datagramQueue.length with
  | zero => exact .inr ⟨fun h => h.2 (List.length_eq_zero_iff.mp hlength), rfl⟩
  | succ rounds =>
      unfold flushDatagrams
      split
      next hnil =>
        rw [show session.datagramQueue = [] from hnil] at hlength
        cases hlength
      next messageType data queue hqueue =>
        have hwaiting : session.datagramQueue ≠ [] := List.ne_nil_of_length_eq_add_one hlength
        split
        next hlater => exact .inr ⟨fun h => not_lt.mpr h.1 hlater, rfl⟩
        next hpaced =>
          refine .inl ⟨⟨not_lt.mp hpaced, hwaiting⟩, ?_⟩
          exact (flushDatagrams_moves rounds _).ne_nil (List.cons_ne_nil _ _)

/-- A probe needs a fragment that waits, comes next or is in flight. -/
theorem probeTarget_eq_none_iff (entry : MessageId × OutgoingMessage) :
    probeTarget entry = none ↔ ¬ (entry.2.retransmitQueue ≠ [] ∨
      entry.2.nextFragment < entry.2.numFragments ∨ entry.2.inFlightQueue ≠ []) := by
  unfold probeTarget
  dsimp only
  split
  next idx rest hqueue => simp [hqueue]
  next hqueue =>
    split
    next hnext => simp [hqueue, hnext]
    next hnext => simp [hqueue, hnext]

theorem flushProbe_answers (hrto : 0 < session.rtt.rto) :
    Answers (session.peerRwnd < estimatedPayloadSize ∧ session.probeDeadline ≤ now ∧
        ∃ msg ∈ session.outgoing.values, msg.retransmitQueue ≠ [] ∨
          msg.nextFragment < msg.numFragments ∨ msg.inFlightQueue ≠ [])
      ((accepting session).flushProbe now) session := by
  rw [probeDeadline_le_iff hrto]
  unfold flushProbe
  dsimp only [accepting]
  split
  next hdue =>
    obtain ⟨hclosed, -, hpaced, helapsed⟩ := hdue
    cases htarget : session.outgoing.entries.findSome? probeTarget with
    | none =>
        refine .inr ⟨?_, rfl⟩
        rintro ⟨-, -, msg, hmsg, hsome⟩
        obtain ⟨entry, hentry, rfl⟩ := List.mem_map.mp hmsg
        exact (probeTarget_eq_none_iff entry).mp (List.findSome?_eq_none_iff.mp htarget entry hentry)
          hsome
    | some target =>
        obtain ⟨id, idx, isNew⟩ := target
        obtain ⟨⟨id', msg⟩, hentry, hfound⟩ := List.exists_of_findSome?_eq_some htarget
        obtain ⟨rfl, -⟩ := probeTarget_cases hfound
        have hsome := mt (probeTarget_eq_none_iff (id', msg)).mpr (by rw [hfound]; nofun)
        refine .inl ⟨⟨hclosed, ⟨hpaced, helapsed⟩, msg, List.mem_map_of_mem hentry,
          not_not.mp hsome⟩, ?_⟩
        simp only [trySendFragment_accepting now (AssocMap.get_eq_some_iff.mpr hentry)]
        split <;> exact List.cons_ne_nil _ _
  next hdue =>
    refine .inr ⟨?_, rfl⟩
    rintro ⟨hclosed, ⟨hpaced, helapsed⟩, msg, hmsg, -⟩
    have hnonempty : session.outgoing.isEmpty = false := by
      rw [AssocMap.isEmpty, List.isEmpty_eq_false_iff]
      exact List.ne_nil_of_mem (List.mem_map.mp hmsg).choose_spec.1
    exact hdue ⟨hclosed, by rw [hnonempty]; rfl, hpaced, helapsed⟩

/-- A message that is picked has a fragment sent. -/
theorem accepted_sendNextFragment {session : SequenceSession C} {now : Instant} {id : MessageId}
    (hready : (fragmentReady session now false id).isSome = true) :
    ((accepting session).sendNextFragmentForMessage id now).2.accepted ≠ [] := by
  obtain ⟨msg, hget, hpicked⟩ := exists_of_fragmentReady hready
  obtain ⟨taken, charged, htakes, haccepted, -⟩ := sendNextFragmentForMessage_takes now hget
  rw [accepting, haccepted]
  cases htakes with
  | retransmission hqueue | timeout hqueue hfront hexpired
  | fresh hqueue hfront hnext => exact List.cons_ne_nil _ _
  | nothing hqueue hyoung hnext =>
      -- nothing that the readiness test could have passed
      have hfront : msg.inFlightQueue.head?.filter (session.timeoutPasses now false msg) =
        none := by
        rw [Option.filter_eq_none_iff]
        intro entry hhead hpasses
        have hexpired := (timeoutPasses_spec hpasses).1
        rw [hyoung entry hhead] at hexpired
        cases hexpired
      have hnew : session.newPasses msg = false := by
        rw [← Bool.not_eq_true]
        exact fun hpasses => Nat.not_lt.mpr hnext (newPasses_spec hpasses).1
      rw [pickedFragment, hqueue, List.head?_nil, Option.filter_none, hfront, hnew] at hpicked
      cases hpicked

theorem flushData_answers (rounds : Nat) :
    ((∃ id, (session.scheduler.nextMessage (fragmentReady session now false)).1 = some id) ∧
      (flushData now (rounds + 1) false (accepting session)).2.accepted ≠ []) ∨
    ((session.scheduler.nextMessage (fragmentReady session now false)).1 = none ∧
      flushData now (rounds + 1) false (accepting session) = (false, accepting { session with
        scheduler := (session.scheduler.nextMessage (fragmentReady session now false)).2 })) := by
  unfold flushData
  dsimp only [accepting]
  cases hnext : (session.scheduler.nextMessage (fragmentReady session now false)).1 with
  | none => exact .inr ⟨rfl, rfl⟩
  | some id =>
      refine .inl ⟨⟨id, rfl⟩, ?_⟩
      -- the readiness test does not look at the scheduler
      have hready : (fragmentReady { session with scheduler :=
          (session.scheduler.nextMessage (fragmentReady session now false)).2 } now false id).isSome =
            true := PriorityScheduler.nextMessage_ready hnext
      have hsent := accepted_sendNextFragment hready
      dsimp only [accepting] at hsent
      dsimp only [update]
      split
      next sent heq =>
        rw [heq] at hsent
        exact (flushData_moves rounds true sent).ne_nil hsent
      next sent heq =>
        rw [heq] at hsent
        exact hsent

theorem flushTailProbe_answers [FloatOps] :
    Answers (0 < session.inFlight ∧ ∃ msg ∈ session.outgoing.values, ∃ entry,
        msg.inFlightQueue.getLast? = some entry ∧
          entry.2 + (session.tailThreshold : Nat) ≤ now)
      ((accepting session).flushTailProbe now false) session := by
  have hpos : 0 < session.tailThreshold :=
    lt_of_lt_of_le (by decide : 0 < fromMillis 10) (Nat.le_max_right _ _)
  -- The search for a target returns one exactly when some last fragment is late enough.
  have htail : ∀ entry : MessageId × OutgoingMessage,
      tailTarget now session.tailThreshold entry ≠ none ↔ ∃ last,
        entry.2.inFlightQueue.getLast? = some last ∧
          last.2 + (session.tailThreshold : Nat) ≤ now := by
    intro entry
    unfold tailTarget
    cases hlast : entry.2.inFlightQueue.getLast? with
    | none => simp
    | some last => simp [← le_durationSince_iff hpos]
  unfold flushTailProbe
  dsimp only [accepting]
  split
  next hguard =>
    split
    next target id idx htarget =>
      obtain ⟨⟨id', msg⟩, hentry, hfound⟩ := List.exists_of_findSome?_eq_some htarget
      change tailTarget now session.tailThreshold (id', msg) = some (id, idx) at hfound
      have hdue := (htail (id', msg)).mp (by rw [hfound]; exact Option.some_ne_none _)
      have hid : id' = id := by
        unfold tailTarget at hfound
        split at hfound
        next =>
          split at hfound
          · cases hfound
            rfl
          · cases hfound
        next => cases hfound
      subst hid
      refine .inl ⟨⟨hguard.2, msg, List.mem_map_of_mem hentry, hdue⟩, ?_⟩
      rw [trySendFragment_accepting now (AssocMap.get_eq_some_iff.mpr hentry)]
      exact List.cons_ne_nil _ _
    next target htarget =>
      refine .inr ⟨?_, rfl⟩
      rintro ⟨-, msg, hmsg, hdue⟩
      obtain ⟨entry, hentry, rfl⟩ := List.mem_map.mp hmsg
      exact (htail entry).mpr hdue (List.findSome?_eq_none_iff.mp htarget entry hentry)
  next hguard => exact .inr ⟨fun h => hguard ⟨rfl, h.1⟩, rfl⟩

/-- The replies owed are sent, or they are forgotten when there are none. -/
theorem sendAcks_answers (rwnd : Nat) (ids : List MessageId) :
    Answers (∃ id ∈ ids, session.incoming.contains id = true ∨
        session.completedIncoming.contains id = true)
      (sendAcks rwnd ids (accepting session)) { session with
        pendingAcks := session.pendingAcks.retain fun id _ => decide (id ∉ ids)
        pendingNacks := session.pendingNacks.retain fun id _ => decide (id ∉ ids) } := by
  induction ids generalizing session with
  | nil =>
      refine .inr ⟨by simp, ?_⟩
      simp [sendAcks, accepting, AssocMap.retain]
  | cons id ids ih =>
      -- A message is owed an acknowledgement if its reassembler or its completion record is still
      -- there.
      have howed : owedAck session rwnd id = none ↔ ¬ (session.incoming.contains id = true ∨
          session.completedIncoming.contains id = true) := by
        rw [AssocMap.contains_eq, AssocMap.contains_eq, owedAck]
        cases session.incoming.get id with
        | none => cases session.completedIncoming.get id <;> simp
        | some reassembler => simp
      unfold sendAcks
      dsimp only [accepting]
      cases hack : owedAck session rwnd id with
      | none =>
          have hnone := howed.mp hack
          dsimp only
          rcases ih (clearPending id session) with ⟨⟨other, hother, hknown⟩, hsent⟩ | ⟨hquiet, heq⟩
          · exact .inl ⟨⟨other, List.mem_cons_of_mem _ hother, hknown⟩, hsent⟩
          · refine .inr ⟨?_, heq.trans ?_⟩
            · rintro ⟨other, hother, hknown⟩
              rcases List.mem_cons.mp hother with rfl | hrest
              · exact hnone hknown
              · exact hquiet ⟨other, hrest, hknown⟩
            · simp only [accepting, clearPending, AssocMap.erase, AssocMap.retain,
                List.filter_filter]
              congr 4
              all_goals
                ext1
                simp [Bool.and_comm]
      | some ack =>
          have hknown : ∃ other ∈ id :: ids, session.incoming.contains other = true ∨
              session.completedIncoming.contains other = true := by
            refine ⟨id, List.mem_cons_self, ?_⟩
            by_contra hnone
            rw [howed.mpr hnone] at hack
            cases hack
          refine .inl ⟨hknown, ?_⟩
          dsimp only [offer]
          exact (sendAcks_moves 0 rwnd ids _).ne_nil (List.cons_ne_nil _ _)

theorem sendNacks_answers (ids : List MessageId) :
    Answers (∃ id ∈ ids, ∃ reassembler, session.incoming.get id = some reassembler ∧
        (reassembler.createNack reassembler.buffer.baseIndex).isSome = true)
      (sendNacks ids (accepting session)) { session with
        pendingNacks := session.pendingNacks.retain fun id _ => decide (id ∉ ids) } := by
  induction ids generalizing session with
  | nil =>
      refine .inr ⟨by simp, ?_⟩
      simp [sendNacks, accepting, AssocMap.retain]
  | cons id ids ih =>
      unfold sendNacks
      dsimp only [accepting]
      cases hnack : (session.incoming.get id).bind fun reassembler =>
          reassembler.createNack reassembler.buffer.baseIndex with
      | none =>
          dsimp only
          rcases ih { session with pendingNacks := session.pendingNacks.erase id } with
            ⟨⟨other, hother, hhole⟩, hsent⟩ | ⟨hquiet, heq⟩
          · exact .inl ⟨⟨other, List.mem_cons_of_mem _ hother, hhole⟩, hsent⟩
          · refine .inr ⟨?_, heq.trans ?_⟩
            · rintro ⟨other, hother, reassembler, hget, hhole⟩
              rcases List.mem_cons.mp hother with rfl | hrest
              · rw [hget, Option.bind_some] at hnack
                rw [hnack] at hhole
                cases hhole
              · exact hquiet ⟨other, hrest, reassembler, hget, hhole⟩
            · simp only [accepting, AssocMap.erase, AssocMap.retain, List.filter_filter]
              congr 4
              ext1
              simp [Bool.and_comm]
      | some nack =>
          obtain ⟨reassembler, hget, hhole⟩ := Option.bind_eq_some_iff.mp hnack
          refine .inl ⟨⟨id, List.mem_cons_self, reassembler, hget, by rw [hhole]; rfl⟩, ?_⟩
          dsimp only [offer]
          exact (sendNacks_moves 0 ids _).ne_nil (List.cons_ne_nil _ _)

end Stages

/-! ### The whole flush -/

section Whole

variable [FloatOps] [CongestionControl C] (now : Instant)

/-- A flush after its main loop. -/
def afterData (data : Bool × FlushState C) : FlushState C :=
  (((data.2.flushTailProbe now data.1).flushPendingAcks now).flushPendingNacks now).update
    detectAppLimited

def afterProbe (state : FlushState C) : FlushState C :=
  afterData now (flushData now (dataRounds state.session) false state)

def afterDatagrams (state : FlushState C) : FlushState C := afterProbe now (state.flushProbe now)

def afterPing (state : FlushState C) : FlushState C :=
  afterDatagrams now (flushDatagrams now state.session.datagramQueue.length state)

theorem flushAll_eq (state : FlushState C) (nowMs : Int) :
    state.flushAll now nowMs = afterPing now (state.flushPing now nowMs) := rfl

omit [FloatOps] in
theorem replies_moves (state : FlushState C) :
    Moves now 0 [.acks, .nacks] state ((state.flushPendingAcks now).flushPendingNacks now) :=
  ((flushPendingAcks_moves _).mono (by decide)).trans ((flushPendingNacks_moves _).mono (by decide))

variable {state : FlushState C}

theorem afterData_ne_nil {data : Bool × FlushState C} (hsent : data.2.accepted ≠ []) :
    (afterData now data).accepted ≠ [] :=
  (replies_moves now _).ne_nil ((flushTailProbe_moves data.2 data.1).ne_nil hsent)

theorem afterProbe_ne_nil (hsent : state.accepted ≠ []) : (afterProbe now state).accepted ≠ [] :=
  afterData_ne_nil now ((flushData_moves _ false state).ne_nil hsent)

theorem afterDatagrams_ne_nil (hsent : state.accepted ≠ []) :
    (afterDatagrams now state).accepted ≠ [] :=
  afterProbe_ne_nil now ((flushProbe_moves state now 0).ne_nil hsent)

theorem afterPing_ne_nil (hsent : state.accepted ≠ []) : (afterPing now state).accepted ≠ [] :=
  afterDatagrams_ne_nil now ((flushDatagrams_moves _ state).ne_nil hsent)

end Whole

end FlushState

namespace SequenceSession

variable [FloatOps] [CongestionControl C]

/-- A flush that sends nothing: only the scheduler has moved, and no reply is pending that is
due. -/
structure Rested (session : SequenceSession C) (now : Instant) (after : SequenceSession C) :
    Prop where
  same : after = { session with
    scheduler := after.scheduler
    pendingAcks := after.pendingAcks
    pendingNacks := after.pendingNacks
    appLimited := after.appLimited }
  acks : ∀ pending ∈ after.pendingAcks.values, ackWaits now pending = false
  nacks : ∀ pendingAt ∈ after.pendingNacks.values, ¬ session.nackDeadline pendingAt ≤ now

variable {now : Instant} {session after : SequenceSession C}

omit [FloatOps] in
theorem Rested.detectAppLimited {scheduler : PriorityScheduler}
    (h : { session with scheduler := scheduler }.Rested now after) :
    session.Rested now (FlushState.detectAppLimited after) := by
  unfold FlushState.detectAppLimited
  dsimp only
  split
  next =>
    exact ⟨congrArg (fun other : SequenceSession C => { other with appLimited := true }) h.same,
      h.acks, h.nacks⟩
  next => exact ⟨h.same, h.acks, h.nacks⟩

omit [FloatOps] in
/-- A flush after its tail probe, when nothing was sent so far. -/
theorem replies_answer (session : SequenceSession C) (now : Instant) :
    (((∃ id pending, session.pendingAcks.get id = some pending ∧ ackWaits now pending = true ∧
          (session.incoming.contains id = true ∨ session.completedIncoming.contains id = true)) ∨
        ∃ id pendingAt reassembler, session.pendingNacks.get id = some pendingAt ∧
          session.nackDeadline pendingAt ≤ now ∧ session.incoming.get id = some reassembler ∧
          (reassembler.createNack reassembler.buffer.baseIndex).isSome = true) ∧
      ((FlushState.accepting session).flushPendingAcks now
        |>.flushPendingNacks now).accepted ≠ []) ∨
    ((∀ id pending, session.pendingAcks.get id = some pending → ackWaits now pending = true →
        ¬ (session.incoming.contains id = true ∨ session.completedIncoming.contains id = true)) ∧
      (∀ id pendingAt reassembler, session.pendingNacks.get id = some pendingAt →
        session.nackDeadline pendingAt ≤ now → session.incoming.get id = some reassembler →
        (reassembler.createNack reassembler.buffer.baseIndex).isSome = false) ∧
      ∃ after, ((FlushState.accepting session).flushPendingAcks now
        |>.flushPendingNacks now) = FlushState.accepting after ∧ session.Rested now after) := by
  have hackPos : 0 < delayedAckTimeout := by decide
  have hnackPos : 0 < max (session.rtt.srtt / 4) (fromMillis 10) :=
    lt_of_lt_of_le (by decide : 0 < fromMillis 10) (Nat.le_max_right _ _)
  have hack : ∀ entry : MessageId × Nat × Instant, (decide (2 ≤ entry.2.1) ||
      decide (delayedAckTimeout ≤ durationSince now entry.2.2)) = ackWaits now entry.2 := by
    intro entry
    rw [ackWaits, ackDeadline, decide_eq_decide.mpr (FlushState.le_durationSince_iff hackPos)]
  have hnack : ∀ entry : MessageId × Instant, decide (max (session.rtt.srtt / 4) (fromMillis 10) ≤
      durationSince now entry.2) = decide (session.nackDeadline entry.2 ≤ now) := by
    intro entry
    rw [nackDeadline, decide_eq_decide.mpr (FlushState.le_durationSince_iff hnackPos)]
  -- The acknowledgements that are due, by message.
  set owed := (session.pendingAcks.entries.filter fun entry => ackWaits now entry.2).map Prod.fst
    with howed
  have hmem : ∀ {id pending}, session.pendingAcks.get id = some pending →
      ackWaits now pending = true → id ∈ owed := by
    intro id pending hget hdue
    exact List.mem_map_of_mem (List.mem_filter.mpr ⟨AssocMap.get_eq_some_iff.mp hget, hdue⟩)
  simp only [FlushState.flushPendingAcks, hack]
  dsimp only [FlushState.accepting]
  rcases FlushState.sendAcks_answers session session.currentRwnd owed with
    ⟨⟨id, hid, hknown⟩, hsent⟩ | ⟨hquiet, heq⟩
  · obtain ⟨entry, hentry, rfl⟩ := List.mem_map.mp hid
    obtain ⟨hentry, hdue⟩ := List.mem_filter.mp hentry
    have hpending := AssocMap.get_eq_some_iff.mpr hentry
    refine .inl ⟨.inl ⟨_, _, hpending, hdue, hknown⟩, ?_⟩
    exact (FlushState.sendNacks_moves 0 _ _).ne_nil hsent
  · dsimp only [FlushState.accepting] at heq
    rw [heq]
    set cleared : SequenceSession C := { session with
      pendingAcks := session.pendingAcks.retain fun id _ => decide (id ∉ owed)
      pendingNacks := session.pendingNacks.retain fun id _ => decide (id ∉ owed) } with hcleared
    have hnack' : ∀ entry : MessageId × Instant,
        decide (max (cleared.rtt.srtt / 4) (fromMillis 10) ≤ durationSince now entry.2) =
          decide (session.nackDeadline entry.2 ≤ now) := hnack
    simp only [FlushState.flushPendingNacks, hnack']
    set missing := (cleared.pendingNacks.entries.filter fun entry =>
      decide (session.nackDeadline entry.2 ≤ now)).map Prod.fst with hmissing
    rcases FlushState.sendNacks_answers cleared missing with
      ⟨⟨id, hid, reassembler, hget, hhole⟩, hsent⟩ | ⟨hquiet', heq'⟩
    · obtain ⟨entry, hentry, rfl⟩ := List.mem_map.mp hid
      obtain ⟨hentry, hdue⟩ := List.mem_filter.mp hentry
      have hpending := AssocMap.get_eq_some_iff.mpr (List.mem_filter.mp hentry).1
      exact .inl ⟨.inr ⟨_, _, _, hpending, of_decide_eq_true hdue, hget, hhole⟩, hsent⟩
    · refine .inr ⟨?_, ?_, _, heq', ⟨rfl, ?_, ?_⟩⟩
      · exact fun id pending hget hdue hknown => hquiet ⟨id, hmem hget hdue, hknown⟩
      · intro id pendingAt reassembler hget hdue hknown
        rw [← Bool.not_eq_true]
        intro hhole
        -- A message with a reassembler would have been acknowledged above, so its nack is still
        -- pending when the nacks are collected.
        have hforgotten : id ∉ owed := by
          intro hid
          refine hquiet ⟨id, hid, .inl ?_⟩
          rw [AssocMap.contains_eq, hknown]
          rfl
        have hkept : (id, pendingAt) ∈ cleared.pendingNacks.entries :=
          List.mem_filter.mpr ⟨AssocMap.get_eq_some_iff.mp hget, decide_eq_true hforgotten⟩
        have hid : id ∈ missing := by
          rw [hmissing]
          exact List.mem_map_of_mem (List.mem_filter.mpr ⟨hkept, decide_eq_true hdue⟩)
        exact hquiet' ⟨id, hid, reassembler, hknown, hhole⟩
      · intro pending hpending
        obtain ⟨entry, hentry, rfl⟩ := List.mem_map.mp hpending
        obtain ⟨hentry, hkept⟩ := List.mem_filter.mp hentry
        rw [← Bool.not_eq_true]
        intro hdue
        refine of_decide_eq_true hkept (List.mem_map_of_mem (List.mem_filter.mpr ⟨hentry, hdue⟩))
      · intro pendingAt hpending hdue
        obtain ⟨entry, hentry, rfl⟩ := List.mem_map.mp hpending
        obtain ⟨hentry, hkept⟩ := List.mem_filter.mp hentry
        exact of_decide_eq_true hkept
          (List.mem_map_of_mem (List.mem_filter.mpr ⟨hentry, decide_eq_true hdue⟩))

/-- A flush with an accepting transport sends something for one of the reasons listed, or it
leaves the session at rest. -/
theorem flushPackets_answer (session : SequenceSession C) (hrto : 0 < session.rtt.rto)
    (now : Instant) (nowMs : Int) :
    (session.Sendable now ∧ (session.flushPackets now nowMs []).2 ≠ []) ∨
    (¬ session.Sendable now ∧ (session.flushPackets now nowMs []).2 = [] ∧
      session.Rested now (session.flushPackets now nowMs []).1) := by
  unfold flushPackets
  dsimp only
  -- Stage by stage: either the stage has something due and sends it, and then the later ones only
  -- add packets, or it leaves the session to the next.
  rw [FlushState.flushAll_eq]
  rcases FlushState.flushPing_answers session now nowMs with ⟨hdue, hsent⟩ | ⟨hping, heq⟩
  · exact .inl ⟨.ping hdue, FlushState.afterPing_ne_nil now hsent⟩
  rw [FlushState.accepting] at heq
  rw [heq, FlushState.afterPing]
  rcases FlushState.flushDatagrams_answers session now with ⟨hdue, hsent⟩ | ⟨hdatagram, heq⟩
  · exact .inl ⟨.datagram hdue.1 hdue.2, FlushState.afterDatagrams_ne_nil now hsent⟩
  rw [FlushState.accepting] at heq
  rw [heq, FlushState.afterDatagrams]
  rcases FlushState.flushProbe_answers session now hrto with ⟨hdue, hsent⟩ | ⟨hprobe, heq⟩
  · obtain ⟨hclosed, hdue, msg, hmsg, htarget⟩ := hdue
    exact .inl ⟨.probe hclosed hdue hmsg htarget, FlushState.afterProbe_ne_nil now hsent⟩
  rw [FlushState.accepting] at heq
  rw [heq, FlushState.afterProbe, FlushState.dataRounds]
  rcases FlushState.flushData_answers session now _ with ⟨⟨id, hpicked⟩, hsent⟩ | ⟨hfragment, heq⟩
  · exact .inl ⟨.fragment hpicked, FlushState.afterData_ne_nil now hsent⟩
  rw [FlushState.accepting] at heq
  rw [heq, FlushState.afterData]
  set scheduled : SequenceSession C := { session with scheduler :=
    (session.scheduler.nextMessage (FlushState.fragmentReady session now false)).2 }
  dsimp only
  rcases FlushState.flushTailProbe_answers scheduled now with ⟨hdue, hsent⟩ | ⟨htail, heq⟩
  · obtain ⟨hflight, msg, hmsg, entry, hlast, hdue⟩ := hdue
    refine .inl ⟨.tail hflight hmsg hlast hdue, ?_⟩
    exact (FlushState.replies_moves now _).ne_nil hsent
  rw [heq]
  rcases scheduled.replies_answer now with ⟨hreply, hsent⟩ | ⟨hack, hnack, after, heq, hrested⟩
  · refine .inl ⟨?_, hsent⟩
    rcases hreply with ⟨id, pending, hpending, hdue, hknown⟩ |
      ⟨id, pendingAt, reassembler, hpending, hdue, hknown, hhole⟩
    · exact .ack hpending hdue hknown
    · exact .nack hpending hdue hknown hhole
  · rw [heq]
    refine .inr ⟨?_, rfl, ?_⟩
    · rintro (hdue | ⟨hpaced, hqueue⟩ | ⟨hclosed, hdue, hmsg, htarget⟩ | hpicked |
        ⟨hflight, hmsg, hlast, hdue⟩ | ⟨hpending, hdue, hknown⟩ |
        ⟨hpending, hdue, hknown, hhole⟩)
      · exact hping hdue
      · exact hdatagram ⟨hpaced, hqueue⟩
      · exact hprobe ⟨hclosed, hdue, _, hmsg, htarget⟩
      · rw [hpicked] at hfragment
        cases hfragment
      · exact htail ⟨hflight, _, hmsg, _, hlast, hdue⟩
      · exact hack _ _ hpending hdue hknown
      · rw [hnack _ _ _ hpending hdue hknown] at hhole
        cases hhole
    · exact hrested.detectAppLimited

/-- What is left to wake up for after a flush that sends nothing. -/
theorem Rested.due_iff (h : session.Rested now after) (hquiet : ¬ session.Sendable now) :
    after.Due now ↔ session.Standing now := by
  obtain ⟨hsame, hacks, hnacks⟩ := h
  obtain ⟨scheduler, pendingAcks, pendingNacks, appLimited, rfl⟩ :
      ∃ scheduler pendingAcks pendingNacks appLimited, after = { session with
        scheduler := scheduler
        pendingAcks := pendingAcks
        pendingNacks := pendingNacks
        appLimited := appLimited } := ⟨_, _, _, _, hsame⟩
  constructor
  · rintro (h | ⟨hpaced, hqueue⟩ | ⟨hflight, hmsg, hlast, hdue⟩ | ⟨hpending, hdue⟩ |
      ⟨hpending, hdue⟩ | hdue)
    · cases h with
      | retransmission hpaced hopen hmsg hqueue => exact .retransmission hpaced hopen hmsg hqueue
      | fresh hpaced hmsg hnext hfits => exact .fresh hpaced hmsg hnext hfits
      | timeout hmsg hfront hdue => exact .timeout hmsg hfront hdue
      | probe hclosed hmsg hdue => exact .probe hclosed hmsg hdue
      | inactivity hdue => exact .inactivity hdue
    · exact absurd (.datagram hpaced hqueue) hquiet
    · obtain ⟨entry, hentry, rfl⟩ := Option.map_eq_some_iff.mp hlast
      exact absurd (.tail hflight hmsg (Option.filter_eq_some_iff.mp hentry).1 hdue) hquiet
    · rw [hacks _ hpending] at hdue
      cases hdue
    · exact absurd hdue (hnacks _ hpending)
    · exact absurd (.ping hdue) hquiet
  · intro h
    refine .standing ?_
    cases h with
    | retransmission hpaced hopen hmsg hqueue => exact .retransmission hpaced hopen hmsg hqueue
    | fresh hpaced hmsg hnext hfits => exact .fresh hpaced hmsg hnext hfits
    | timeout hmsg hfront hdue => exact .timeout hmsg hfront hdue
    | probe hclosed hmsg hdue => exact .probe hclosed hmsg hdue
    | inactivity hdue => exact .inactivity hdue

/-- For each standing reason to wake up there is something to send, and where the scheduler
picks a message although the congestion window is full, there is a reason to wake up. -/
structure Attuned (session : SequenceSession C) (now : Instant) : Prop where
  standing : session.Standing now → session.Sendable now
  picked : ∀ id, (session.scheduler.nextMessage
      (FlushState.fragmentReady session now false)).1 = some id →
    session.cwndOpen = false → session.Due now

/-- A message that is picked while the congestion window is open is a reason to wake up. -/
theorem due_of_picked {session : SequenceSession C} (hrto : 0 < session.rtt.rto) {id : MessageId}
    (hready : (FlushState.fragmentReady session now false id).isSome = true)
    (hopen : session.cwndOpen = true) : session.Due now := by
  obtain ⟨msg, hget, hpicked⟩ := exists_of_fragmentReady hready
  have hmsg : msg ∈ session.outgoing.values :=
    List.mem_map_of_mem (AssocMap.get_eq_some_iff.mp hget)
  have hpaced : session.nextPacingTime ≤ now := by
    by_contra hlater
    simp [FlushState.fragmentReady, hget, not_le.mp hlater] at hready
  refine .standing ?_
  unfold pickedFragment at hpicked
  cases hretransmit : msg.retransmitQueue.head?.filter (session.retransmitPasses false msg) with
  | some idx =>
      obtain ⟨hhead, -⟩ := Option.filter_eq_some_iff.mp hretransmit
      exact .retransmission hpaced hopen hmsg (List.ne_nil_of_mem (List.mem_of_mem_head? hhead))
  | none =>
      cases htimeout : msg.inFlightQueue.head?.filter (session.timeoutPasses now false msg) with
      | some entry =>
          obtain ⟨hhead, hpasses⟩ := Option.filter_eq_some_iff.mp htimeout
          have htimedOut := (timeoutPasses_spec hpasses).2.2.1
          simp only [timedOut, Bool.and_eq_true] at htimedOut
          obtain ⟨⟨hexpired, -⟩, hcurrent⟩ := htimedOut
          have hpos : 0 < session.rtt.rto * 2 ^ min 6 (msg.fragmentState entry.1).rtoBackoff :=
            Nat.mul_pos hrto (Nat.two_pow_pos _)
          have hfront : session.rtoDeadline msg = some (entry.2 +
              (session.rtt.rto * 2 ^ min 6 (msg.fragmentState entry.1).rtoBackoff : Nat)) := by
            rw [rtoDeadline, hhead, Option.filter_some, isCurrent, if_pos hcurrent]
            rfl
          refine .timeout hmsg hfront ((FlushState.le_durationSince_iff hpos).mp ?_)
          exact of_decide_eq_true hexpired
      | none =>
          rw [hretransmit, htimeout] at hpicked
          dsimp only at hpicked
          split at hpicked
          next hnew =>
            obtain ⟨hnext, -, -, hfits⟩ := newPasses_spec hnew
            exact .fresh hpaced hmsg hnext hfits
          next => cases hpicked

/-- Of what a flush finds to send, only a message that is picked while the congestion window is
full may be no reason to wake up. -/
theorem Attuned.due {session : SequenceSession C} (h : session.Attuned now)
    (hclocked : session.Clocked) (hsendable : session.Sendable now) : session.Due now := by
  rcases hsendable with (hdue | ⟨hpaced, hqueue⟩ | ⟨hclosed, hdue, hmsg, htarget⟩ | hpicked |
    ⟨hflight, hmsg, hlast, hdue⟩ | ⟨hpending, hdue, hknown⟩ | ⟨hpending, hdue, hknown, hhole⟩)
  · exact .ping hdue
  · exact .datagram hpaced hqueue
  · refine .standing (.probe hclosed ?_ hdue)
    rw [AssocMap.isEmpty, List.isEmpty_eq_false_iff]
    exact List.ne_nil_of_mem (List.mem_map.mp hmsg).choose_spec.1
  · cases hopen : session.cwndOpen with
    | true => exact due_of_picked hclocked.rto_pos (PriorityScheduler.nextMessage_ready hpicked) hopen
    | false => exact h.picked _ hpicked hopen
  · rename_i msg entry
    obtain ⟨⟨id, msg'⟩, hentry, rfl⟩ := List.mem_map.mp hmsg
    have htimely := hclocked.timely id msg' (AssocMap.get_eq_some_iff.mpr hentry)
    have hentry : msg'.lastEntry entry.1 = some entry := by
      obtain ⟨earlier, hqueue⟩ := List.getLast?_eq_some_iff.mp hlast
      have hqueue : msg'.inFlightQueue = earlier ++ [entry] := hqueue
      simp [OutgoingMessage.lastEntry, hqueue]
    have hcurrent : isCurrent msg' entry = true := by
      rw [isCurrent, Option.all_eq_true]
      exact fun sent hsent => decide_eq_true (htimely entry.1 entry sent hentry hsent)
    refine .tail hflight hmsg ?_ hdue
    rw [tailDeadline, hlast, Option.filter_some, if_pos hcurrent]
    rfl
  · exact .ack (List.mem_map_of_mem (AssocMap.get_eq_some_iff.mp hpending)) hdue
  · exact .nack (List.mem_map_of_mem (AssocMap.get_eq_some_iff.mp hpending)) hdue

/-- In every reachable state and at every time: `next_wakeup` names the present only if the flush
sends something or moves the wake-up, and whenever the flush sends something, if and only if the
session is attuned. -/
theorem nextWakeup_agrees_iff (config : SessionConfig C) (operations : List Operation)
    (now : Instant) (nowMs : Int) :
    let session := runFrom step (.new config) operations
    let flushed := session.flushPackets now nowMs []
    ((session.nextWakeup now = now → flushed.2 ≠ [] ∨ now < flushed.1.nextWakeup now) ∧
      (flushed.2 ≠ [] → session.nextWakeup now ≤ now)) ↔ session.Attuned now := by
  intro session flushed
  have hclocked : session.Clocked := clocked config operations
  have hnow : session.nextWakeup now = now ↔ session.Due now := by
    rw [← nextWakeup_le_iff]
    exact ⟨le_of_eq, fun hle => le_antisymm hle le_nextWakeup⟩
  have hlater : now < flushed.1.nextWakeup now ↔ ¬ flushed.1.Due now := by
    rw [← nextWakeup_le_iff, not_le]
  rw [hnow, nextWakeup_le_iff, hlater]
  rcases session.flushPackets_answer hclocked.rto_pos now nowMs with
    ⟨hsendable, hsent⟩ | ⟨hquiet, hnothing, hrested⟩
  · constructor
    · rintro ⟨-, hmissed⟩
      exact ⟨fun _ => hsendable, fun _ _ _ => hmissed hsent⟩
    · exact fun h => ⟨fun _ => .inl hsent, fun _ => h.due hclocked hsendable⟩
  · have hsilent : ¬ flushed.2 ≠ [] := not_not.mpr hnothing
    have hleft := hrested.due_iff hquiet
    constructor
    · rintro ⟨hbusy, -⟩
      refine ⟨fun hstanding => ?_, fun id hpicked _ => absurd (.fragment hpicked) hquiet⟩
      exact absurd (hleft.mpr hstanding) ((hbusy (.standing hstanding)).resolve_left hsilent)
    · intro h
      refine ⟨fun _ => .inr fun hdue => hquiet (h.standing (hleft.mp hdue)), ?_⟩
      exact fun hsent => absurd hsent hsilent

end SequenceSession

/-! ### Two runs -/

/-- The reference session with a congestion window of two fragments. -/
abbrev narrowSession (operations : List Operation) : SequenceSession FixedWindow :=
  runFrom (@SequenceSession.step FixedWindow exactFloatOps _)
    (.new { referenceConfig .left with congestionControl := ⟨2⟩ }) operations

/-- Two fragments are sent, and the peer asks for the first one. A message of a higher priority
then fills the congestion window. -/
def holeBehindWindow : List Operation :=
  [.call (.sendMessage .merkleNode (List.replicate 2000 0) 0), .call (.flush 0 0 []),
    .call (.flush 0 0 []), .receive (.nack ⟨5, [0]⟩) 0 0 0,
    .call (.sendMessage .capsAnnounce (List.replicate 4000 0) 0), .call (.flush 0 0 [])]

/-- A flush would send the first fragment again at once, and the wake-up is 300 ms later. While
a retransmission does not fit the peer's window, the wake-up is at once, and the flush does
nothing. -/
theorem wakeup_missed_and_spins :
    let narrow := narrowSession holeBehindWindow
    let blocked := referenceSession blockedRetransmit
    let flushed := @SequenceSession.flushPackets FixedWindow exactFloatOps _ blocked 1000 0 []
    ((@SequenceSession.flushPackets FixedWindow exactFloatOps _ narrow 0 0 []).2 ≠ [] ∧
        @SequenceSession.nextWakeup FixedWindow narrow 0 exactFloatOps _ = fromMillis 300) ∧
      (@SequenceSession.nextWakeup FixedWindow blocked 1000 exactFloatOps _ = 1000 ∧
        flushed.2 = [] ∧
        @SequenceSession.nextWakeup FixedWindow flushed.1 1000 exactFloatOps _ = 1000) := by
  decide +kernel

end MerkleTox.Sequenced
