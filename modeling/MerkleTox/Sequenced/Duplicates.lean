import MerkleTox.Sequenced.Quota

/-! # Fragments that arrive again

A buffer leaves a fragment it has already alone. The size limit in front of it counts the
fragment once more, though, so that close to the limit the duplicate is an error, which makes
the session give up the message.
-/

namespace MerkleTox.Sequenced

open Proto Library

/-! ## The reassembler -/

theorem FragmentBuffer.totalFragments_addFragment (buffer : FragmentBuffer) (index : Nat)
    (data : Bytes) : (buffer.addFragment index data).2.totalFragments = buffer.totalFragments := by
  unfold addFragment
  split
  · rfl
  · split <;> rfl

namespace MessageReassembler

variable {reassembler : MessageReassembler} {index : Nat}

/-- What a reassembler can become: fragments are added, and its session changes its priority
and its reservation. -/
inductive Reachable : MessageReassembler → Prop
  | new {messageId : MessageId} {totalFragments : Nat} {priority : Priority}
      {reservedBytes : Nat} {now : Instant} {reassembler : MessageReassembler}
      (h : MessageReassembler.new messageId totalFragments priority reservedBytes now =
        .ok reassembler) : Reachable reassembler
  | addFragment {reassembler : MessageReassembler} (h : Reachable reassembler) (index : Nat)
      (data : Bytes) (now : Instant) : Reachable (reassembler.addFragment index data now).2
  | adjusted {reassembler : MessageReassembler} (h : Reachable reassembler)
      (priority : Priority) (reservedBytes : Nat) :
      Reachable { reassembler with priority := priority, reservedBytes := reservedBytes }

theorem totalFragments_addFragment (reassembler : MessageReassembler) (index : Nat) (data : Bytes)
    (now : Instant) :
    (reassembler.addFragment index data now).2.totalFragments = reassembler.totalFragments ∧
      (reassembler.addFragment index data now).2.buffer.totalFragments =
        reassembler.buffer.totalFragments := by
  unfold addFragment
  dsimp only
  split
  · exact ⟨rfl, rfl⟩
  · exact ⟨rfl, reassembler.buffer.totalFragments_addFragment index data⟩

theorem totalFragments_new {messageId : MessageId} {total : Nat} {priority : Priority}
    {reservedBytes : Nat} {now : Instant}
    (h : new messageId total priority reservedBytes now = .ok reassembler) :
    reassembler.buffer.totalFragments = reassembler.totalFragments := by
  unfold new at h
  split at h
  · cases h
  · cases h
    rfl

/-- The buffer knows the number of fragments. -/
theorem Reachable.totalFragments (h : Reachable reassembler) :
    reassembler.buffer.totalFragments = reassembler.totalFragments := by
  induction h with
  | new h => exact totalFragments_new h
  | @addFragment reassembler h index data now ih =>
      obtain ⟨htotal, hbuffer⟩ := reassembler.totalFragments_addFragment index data now
      rw [htotal, hbuffer, ih]
  | adjusted h priority reservedBytes ih => exact ih

section

variable (htotal : reassembler.buffer.totalFragments = reassembler.totalFragments) (hreceived :
  reassembler.isReceived index = true) (data : Bytes) (now : Instant)
include htotal hreceived

/-- A fragment that is received already, within the limit or beyond it. -/
theorem addFragment_received :
    reassembler.addFragment index data now =
      (if reassembler.buffer.currentSize + data.length ≤ maxMessageSize then
          .ok reassembler.buffer.isComplete
        else .error .messageTooLarge,
        { reassembler with lastActivity := now }) := by
  unfold isReceived at hreceived
  split at hreceived
  · cases hreceived
  next hindex =>
    have hbuffer : reassembler.buffer.addFragment index data =
        (.ok reassembler.buffer.isComplete, reassembler.buffer) := by
      rw [FragmentBuffer.addFragment, htotal, if_neg hindex, if_pos hreceived]
    unfold addFragment
    dsimp only
    rw [hbuffer]
    by_cases hfits : reassembler.buffer.currentSize + data.length ≤ maxMessageSize
    · rw [if_neg (Nat.not_lt.mpr hfits), if_pos hfits]
    · rw [if_pos (Nat.not_le.mp hfits), if_neg hfits]

theorem addFragment_received_iff
    :
    reassembler.addFragment index data now =
        (.ok reassembler.buffer.isComplete, { reassembler with lastActivity := now }) ↔
      reassembler.buffer.currentSize + data.length ≤ maxMessageSize := by
  rw [addFragment_received htotal hreceived]
  split
  next hfits => exact iff_of_true rfl hfits
  next hexceeds => exact iff_of_false nofun hexceeds

end

/-- Between two packets: the reservation is what is planned, and something is missing. -/
structure Settled (entry : MessageReassembler) : Prop where
  total : entry.buffer.totalFragments = entry.totalFragments
  reserved : entry.reservedBytes = entry.plannedTotalSize
  incomplete : entry.buffer.isComplete = false

end MessageReassembler

/-! ## The session -/

namespace SequenceSession

variable {C : Type} {session : SequenceSession C} {id : MessageId} {entry : MessageReassembler}

/-- Every incoming message is settled. -/
def AllSettled (session : SequenceSession C) : Prop :=
  ∀ id entry, session.incoming.get id = some entry → entry.Settled

variable {after : SequenceSession C}

theorem AllSettled.of_same (h : session.AllSettled)
    (hincoming : after.incoming = session.incoming) : after.AllSettled := by
  intro id entry hget
  rw [hincoming] at hget
  exact h id entry hget

theorem adjustReservation_reserved {adjusted : MessageReassembler}
    (h : session.adjustReservation entry = some (after, adjusted)) :
    adjusted.reservedBytes = entry.plannedTotalSize := by
  unfold adjustReservation at h
  dsimp only at h
  split at h
  · split at h
    · cases h
    · cases h
      rfl
  · cases h
    rfl

theorem incoming_completeMessage (session : SequenceSession C) (id : MessageId)
    (entry : MessageReassembler) (now : Instant) :
    (session.completeMessage id entry now).incoming = session.incoming.erase id := by
  unfold completeMessage
  dsimp only
  split
  · rfl
  · split <;> rfl

/-- Every incoming message but one is settled. -/
def SettledBut (session : SequenceSession C) (id : MessageId) : Prop :=
  ∀ other entry, other ≠ id → session.incoming.get other = some entry → entry.Settled

theorem SettledBut.erase (h : session.SettledBut id)
    (hincoming : after.incoming = session.incoming.erase id) : after.AllSettled := by
  intro other entry hget
  rw [hincoming] at hget
  obtain ⟨hne, hget⟩ := AssocMap.get_of_erase hget
  exact h other entry hne hget

theorem SettledBut.insert (h : session.SettledBut id)
    (hincoming : after.incoming = session.incoming.insert id entry) (hentry : entry.Settled) :
    after.AllSettled := by
  intro other found hget
  rw [hincoming, AssocMap.get_insert] at hget
  split at hget
  · cases hget
    exact hentry
  next hne => exact h other found hne hget

theorem SettledBut.processFragment (h : session.SettledBut id)
    (htotal : ∀ entry, session.incoming.get id = some entry →
      entry.buffer.totalFragments = entry.totalFragments) (index : Nat) (data : Bytes)
    (now : Instant) (hsome : session.incoming.contains id = true) :
    (session.processFragment id index data now).1.AllSettled := by
  unfold SequenceSession.processFragment
  split
  next hget =>
    rw [AssocMap.contains_eq, hget] at hsome
    cases hsome
  next entry hget =>
    split
    next => exact h.erase rfl
    next complete added hadd =>
      obtain ⟨hentryTotal, hbufferTotal⟩ := entry.totalFragments_addFragment index data now
      have hcomplete := addFragment_isComplete (addFragment_ok hadd).1
      rw [hadd] at hentryTotal hbufferTotal
      unfold fragmentAdded
      split
      next => exact h.erase rfl
      next after adjusted hadjust =>
        obtain ⟨-, hincoming, -, hview⟩ := adjustReservation_some hadjust
        have hreserved := adjustReservation_reserved hadjust
        simp only [MessageReassembler.view, Prod.mk.injEq] at hview
        obtain ⟨-, hviewTotal, hviewBuffer⟩ := hview
        split
        next =>
          refine h.erase ?_
          rw [incoming_completeMessage, hincoming]
          rfl
        next hmore =>
          refine h.insert (by rw [hincoming]; rfl) ⟨?_, ?_, ?_⟩
          · rw [hviewBuffer, hviewTotal, hbufferTotal, hentryTotal, htotal entry hget]
          · rw [hreserved, MessageReassembler.plannedTotalSize,
              MessageReassembler.plannedTotalSize, hviewBuffer]
          · rw [hviewBuffer, hcomplete]
            exact Bool.eq_false_of_not_eq_true hmore

theorem settled_reprioritise (h : entry.Settled) (messageType : Option MessageType)
    (total : Nat) : (reprioritise messageType total entry).Settled := by
  unfold reprioritise
  split
  · exact ⟨h.total, h.reserved, h.incomplete⟩
  · exact h

/-- Another priority leaves a message settled. -/
theorem AllSettled.reprioritise (h : session.AllSettled) (id : MessageId)
    (messageType : Option MessageType) (total : Nat) :
    { session with incoming :=
        session.incoming.modify id (reprioritise messageType total) }.AllSettled := by
  intro other found hget
  by_cases heq : other = id
  · rw [heq, AssocMap.get_modify_self, Option.map_eq_some_iff] at hget
    obtain ⟨entry, hentry, rfl⟩ := hget
    exact settled_reprioritise (h id entry hentry) messageType total
  · rw [AssocMap.get_modify_of_ne _ _ heq] at hget
    exact h other found hget

/-- An admitted message is there, and only a new one may not be settled. -/
theorem AllSettled.ensureReassembler (h : session.AllSettled) (id : MessageId)
    (messageType : Option MessageType) (total dataLen : Nat) (now : Instant) :
    ∀ ok session' replies,
      session.ensureReassembler id messageType total dataLen now = (ok, session', replies) →
      (ok = false → session'.AllSettled) ∧
      (ok = true → session'.SettledBut id ∧ session'.incoming.contains id = true ∧
        ∀ entry, session'.incoming.get id = some entry →
          entry.buffer.totalFragments = entry.totalFragments) := by
  intro ok session' replies heq
  unfold SequenceSession.ensureReassembler at heq
  split at heq
  next entry hget =>
    cases heq
    have hsettled := h.reprioritise id messageType total
    refine ⟨fun _ => hsettled, fun _ => ⟨fun other found _ => hsettled other found, ?_,
      fun found hfound => (hsettled id found hfound).total⟩⟩
    rw [AssocMap.contains_eq, AssocMap.get_modify_self, hget]
    rfl
  next hget =>
    dsimp only at heq
    split at heq
    next =>
      cases heq
      exact ⟨fun _ => h, fun hok => Bool.noConfusion hok⟩
    next =>
      split at heq
      next =>
        cases heq
        exact ⟨fun _ => h.of_same rfl, fun hok => Bool.noConfusion hok⟩
      next =>
        split at heq
        next entry hnew =>
          cases heq
          -- The new reassembler is the one entry that may not be settled: it has no fragment yet.
          refine ⟨fun hok => Bool.noConfusion hok, fun _ => ⟨fun other found hne hfound => ?_, ?_, fun found hfound => ?_⟩⟩
          · rw [AssocMap.get_insert_of_ne _ _ hne] at hfound
            exact h other found hfound
          · rw [AssocMap.contains_eq, AssocMap.get_insert_self]
            rfl
          · rw [AssocMap.get_insert_self] at hfound
            cases hfound
            exact MessageReassembler.totalFragments_new hnew
        next =>
          cases heq
          exact ⟨fun _ => h.of_same rfl, fun hok => Bool.noConfusion hok⟩

theorem AllSettled.handleDataPacket (h : session.AllSettled) (id : MessageId)
    (index total : Nat) (data : Bytes) (now : Instant) :
    (session.handleDataPacket id index total data now).1.AllSettled := by
  unfold SequenceSession.handleDataPacket
  split
  next => exact h
  next =>
    split
    next => exact h
    next =>
      have hensured := h.ensureReassembler id (peekedType index data) total data.length now
      split
      next refused replies heq => exact (hensured _ _ _ heq).1 rfl
      next held replies heq =>
        obtain ⟨hbut, hcontains, htotal⟩ := (hensured _ _ _ heq).2 rfl
        exact hbut.processFragment htotal index data now hcontains

theorem AllSettled.cleanup (h : session.AllSettled) (now : Instant) :
    (session.cleanup now).AllSettled := by
  obtain ⟨-, -, hincoming, -⟩ := session.cleanup_spec now
  intro id entry hget
  rw [hincoming, Option.filter_eq_some_iff] at hget
  exact h id entry hget.1

section Runs

variable [FloatOps] [CongestionControl C]

theorem AllSettled.handlePacket (h : session.AllSettled) (packet : Packet) (now : Instant)
    (systemMs jitter : Int) :
    (session.handlePacket packet now systemMs jitter).1.AllSettled := by
  unfold SequenceSession.handlePacket
  have htouched : { session with lastActivity := now }.AllSettled := h.of_same rfl
  generalize { session with lastActivity := now } = touched at htouched
  suffices hinternal : (touched.handlePacketInternal packet now systemMs jitter).1.AllSettled by
    unfold checkCwndChange
    dsimp only
    split
    next => exact hinternal.of_same rfl
    next => exact hinternal
  cases packet with
  | data id index total data => exact htouched.handleDataPacket id index total data now
  | ack ack =>
      simp only [handlePacketInternal, handleAckPacket, acknowledge]
      split
      next => split <;> exact htouched.of_same rfl
      next => exact htouched.of_same rfl
  | nack nack =>
      simp only [handlePacketInternal, handleNackPacket]
      split <;> exact htouched.of_same rfl
  | ping t1 => exact htouched
  | pong t1 t2 t3 =>
      simp only [handlePacketInternal, handlePong]
      split <;> exact htouched.of_same rfl
  | datagram messageType data => exact htouched.of_same rfl

theorem AllSettled.step (h : session.AllSettled) (operation : Operation) :
    (session.step operation).AllSettled := by
  cases operation with
  | receive packet now systemMs jitter => exact h.handlePacket packet now systemMs jitter
  | call action =>
      cases action with
      | sendMessage messageType data now =>
          simp only [SequenceSession.step, Party.call, SequenceSession.sendMessageAt]
          repeat' split
          all_goals exact h.of_same rfl
      | setMessageTimeout messageId timeout => exact h.of_same rfl
      | sendDatagram messageType data =>
          simp only [SequenceSession.step, Party.call, Party.withSession,
            SequenceSession.sendDatagram]
          split
          next => exact h
          next => split <;> exact h.of_same rfl
      | flush now nowMs answers =>
          obtain ⟨hview, -, -⟩ := session.flushPackets_spec now nowMs answers
          simp only [SequenceSession.receiveView, Prod.mk.injEq] at hview
          exact h.of_same hview.2.1
      | cleanup now => exact h.cleanup now
      | pollEvent | setQuota quota | setUsedBytes usedBytes
      | setMaxPerSession maxPerSession => exact h.of_same rfl

/-- In every reachable state all incoming messages are settled. -/
theorem allSettled (config : SessionConfig C) (operations : List Operation) :
    (runFrom SequenceSession.step (.new config) operations).AllSettled := by
  have hstep : ∀ (session : SequenceSession C) operation, session.AllSettled →
      (session.step operation).AllSettled := fun _ operation h => h.step operation
  exact runFrom_invariant hstep operations nofun

end Runs

/-! ## A duplicate -/

/-- Adding a duplicate keeps the message exactly within the limit. -/
theorem processFragment_received_iff (session : SequenceSession C) {index : Nat}
    (hentry : entry.Settled) (hget : session.incoming.get id = some entry)
    (hreceived : entry.isReceived index = true) (data : Bytes) (now : Instant) :
    (session.processFragment id index data now).1.buffered id = session.buffered id ↔
      entry.buffer.currentSize + data.length ≤ maxMessageSize := by
  have hbefore : session.buffered id = some entry.view := by
    rw [buffered, hget]
    rfl
  rw [processFragment, hget, hbefore]
  dsimp only
  rw [MessageReassembler.addFragment_received hentry.total hreceived]
  by_cases hfits : entry.buffer.currentSize + data.length ≤ maxMessageSize
  · refine iff_of_true ?_ hfits
    rw [if_pos hfits]
    dsimp only
    -- the reservation is what is planned, so that nothing is taken
    have hplanned : ∀ held : SequenceSession C,
        ∃ adjusted, held.adjustReservation { entry with lastActivity := now } =
          some (adjusted, { entry with lastActivity := now }) := by
      intro held
      have heq : ({ entry with lastActivity := now } : MessageReassembler).plannedTotalSize =
          entry.reservedBytes := hentry.reserved.symm
      unfold adjustReservation
      dsimp only
      rw [heq, if_neg (Nat.lt_irrefl _)]
      exact ⟨_, rfl⟩
    obtain ⟨adjusted, hadjusted⟩ := hplanned (session.noteHole id index entry.buffer.baseIndex now)
    rw [fragmentAdded, hadjusted, hentry.incomplete]
    simp [buffered, AssocMap.get_insert_self, MessageReassembler.view]
  · refine iff_of_false ?_ hfits
    rw [if_neg hfits]
    dsimp only
    rw [buffered_erase_self]
    rintro ⟨⟩

/-- The packet gets as far as the reassembler. -/
structure Processes (session : SequenceSession C) (id : MessageId) (entry : MessageReassembler)
    (total : Nat) : Prop where
  fresh : session.checkCompletedMessage id = none
  recent : session.isAncientMessage id = false
  total : entry.totalFragments = total

/-- A duplicate that arrives in a packet leaves the message exactly within the limit, or if the
packet does not get as far. -/
theorem handleDataPacket_received_iff {index : Nat} (hentry : entry.Settled)
    (hget : session.incoming.get id = some entry) (hreceived : entry.isReceived index = true)
    (total : Nat) (data : Bytes) (now : Instant) :
    (session.handleDataPacket id index total data now).1.buffered id = session.buffered id ↔
      (session.Processes id entry total →
        entry.buffer.currentSize + data.length ≤ maxMessageSize) := by
  have hsame := session.buffered_reprioritise id id (peekedType index data) total
  unfold handleDataPacket
  cases hcompleted : session.checkCompletedMessage id with
  | some reply =>
      refine iff_of_true rfl fun hprocesses => ?_
      rw [hprocesses.fresh] at hcompleted
      cases hcompleted
  | none =>
      by_cases hancient : session.isAncientMessage id = true
      · rw [if_pos hancient]
        refine iff_of_true rfl fun hprocesses => ?_
        rw [hprocesses.recent] at hancient
        cases hancient
      · rw [if_neg hancient, SequenceSession.ensureReassembler, hget]
        dsimp only
        by_cases htotal : entry.totalFragments = total
        · rw [beq_iff_eq.mpr htotal]
          have hheld : (session.incoming.modify id
              (SequenceSession.reprioritise (peekedType index data) total)).get id =
              some (SequenceSession.reprioritise (peekedType index data) total entry) := by
            rw [AssocMap.get_modify_self, hget]
            rfl
          have hview := view_reprioritise (peekedType index data) total entry
          simp only [MessageReassembler.view, Prod.mk.injEq] at hview
          have hiff := processFragment_received_iff
            { session with
              incoming := session.incoming.modify id
                (SequenceSession.reprioritise (peekedType index data) total) }
            (settled_reprioritise hentry (peekedType index data) total) hheld
            (by rw [MessageReassembler.isReceived, hview.2.1, hview.2.2]; exact hreceived) data now
          rw [hsame, hview.2.2] at hiff
          refine hiff.trans ⟨fun hfits _ => hfits, fun hfits => hfits ⟨hcompleted, ?_, htotal⟩⟩
          exact Bool.eq_false_of_not_eq_true hancient
        · rw [beq_eq_false_iff_ne.mpr htotal]
          exact iff_of_true hsame fun hprocesses => absurd hprocesses.total htotal

end SequenceSession

/-- A fragment that is received already changes nothing, in every reachable reassembler and in
every reachable session, exactly if it fits once more under the size limit. -/
theorem duplicate_harmless_iff {C : Type} [FloatOps] [CongestionControl C] :
    (∀ reassembler, MessageReassembler.Reachable reassembler →
      ∀ index, reassembler.isReceived index = true → ∀ data now,
        (reassembler.addFragment index data now =
            (.ok reassembler.buffer.isComplete, { reassembler with lastActivity := now }) ↔
          reassembler.buffer.currentSize + data.length ≤ maxMessageSize)) ∧
      ∀ (config : SessionConfig C) (operations : List Operation) (session : SequenceSession C),
        session = runFrom SequenceSession.step (.new config) operations →
        ∀ id entry, session.incoming.get id = some entry →
        ∀ index, entry.isReceived index = true → ∀ total data now,
          ((session.handleDataPacket id index total data now).1.buffered id =
              session.buffered id ↔
            (session.Processes id entry total →
              entry.buffer.currentSize + data.length ≤ maxMessageSize)) := by
  refine ⟨fun reassembler hreachable index hreceived data now => ?_, ?_⟩
  · exact MessageReassembler.addFragment_received_iff hreachable.totalFragments hreceived data now
  · rintro config operations session rfl id entry hget index hreceived total data now
    have hentry := SequenceSession.allSettled config operations id entry hget
    exact SequenceSession.handleDataPacket_received_iff hentry hget hreceived total data now

/-- A reassembler of two fragments that has the first one. -/
def halfMessage (data : Bytes) : MessageReassembler where
  messageId := 7
  totalFragments := 2
  priority := .standard
  buffer := ((FragmentBuffer.new 2).addFragment 0 data).2
  reservedBytes := 2600
  lastActivity := 0

theorem reachable_halfMessage {data : Bytes} (hle : data.length ≤ maxMessageSize) :
    MessageReassembler.Reachable (halfMessage data) := by
  have hnew : MessageReassembler.new 7 2 .standard 2600 0 =
      .ok ⟨7, 2, .standard, .new 2, 2600, 0⟩ := by
    rw [MessageReassembler.new, if_neg (by decide)]
  have hadded := (MessageReassembler.Reachable.new hnew).addFragment 0 data 0
  unfold MessageReassembler.addFragment at hadded
  dsimp only at hadded
  have hfits : ¬ maxMessageSize < (FragmentBuffer.new 2).currentSize + data.length :=
    Nat.not_lt.mpr ((Nat.zero_add data.length).symm ▸ hle)
  rw [if_neg hfits] at hadded
  exact hadded

theorem isReceived_halfMessage (data : Bytes) : (halfMessage data).isReceived 0 = true := by
  simp [MessageReassembler.isReceived, halfMessage, FragmentBuffer.addFragment,
    FragmentBuffer.store, FragmentBuffer.new, BitSet.get_set, bitsetWords]

theorem duplicate_harmless_small :
    (halfMessage [1, 2, 3]).addFragment 0 [1, 2, 3] 5 =
      (.ok false, { halfMessage [1, 2, 3] with lastActivity := 5 }) :=
  ((@duplicate_harmless_iff FixedWindow exactFloatOps _).1 (halfMessage [1, 2, 3])
    (reachable_halfMessage (by decide)) 0 (isReceived_halfMessage _) [1, 2, 3] 5).mpr (by decide)

/-- More than half of the largest message, twice. -/
theorem duplicate_too_large :
    ¬ ∀ reassembler, MessageReassembler.Reachable reassembler →
      ∀ index, reassembler.isReceived index = true →
        ∀ data, reassembler.buffer.fragments[index]? = some (some data) → ∀ now,
          reassembler.addFragment index data now =
            (.ok reassembler.buffer.isComplete, { reassembler with lastActivity := now }) := by
  intro hharmless
  obtain ⟨data, hlength⟩ : ∃ data : Bytes, data.length = 600000 :=
    ⟨List.replicate 600000 0, List.length_replicate⟩
  have hreachable : MessageReassembler.Reachable (halfMessage data) :=
    reachable_halfMessage (by rw [hlength]; decide)
  have hadded := hharmless _ hreachable 0 (isReceived_halfMessage data) data rfl 0
  rw [MessageReassembler.addFragment_received_iff hreachable.totalFragments
    (isReceived_halfMessage data)] at hadded
  have hsize : (halfMessage data).buffer.currentSize = 0 + data.length := rfl
  rw [hsize, hlength] at hadded
  exact absurd hadded (by decide)

end MerkleTox.Sequenced
