import MerkleTox.Sequenced.Progress

/-! # The shared reassembly quota

Any number of sessions share one quota. Each of them reserves the bytes of its incoming
messages there and gives them back on completion, error, timeout and when it is dropped.
In every state of the pool the quota counts what the live sessions hold.
-/

namespace MerkleTox.Sequenced

open Proto Library

variable {C : Type}

namespace ReassemblyQuota

theorem threshold_le (quota : ReassemblyQuota) (priority : Priority) :
    quota.threshold priority ≤ quota.maxBytes := by
  cases priority <;> simp only [threshold] <;> omega

theorem release_of_le {quota : ReassemblyQuota} {amount : Nat} (hle : amount ≤ quota.usedBytes) :
    quota.release amount = { quota with usedBytes := quota.usedBytes - amount } := by
  unfold release
  rw [decide_eq_false (Nat.not_lt.mpr hle), Bool.or_false]

/-- The outcome of a reservation: the bytes are taken if they fit, or nothing happens. -/
inductive Reserves (quota : ReassemblyQuota) (amount : Nat) : Bool × ReassemblyQuota → Prop
  | granted (hfits : quota.usedBytes + amount ≤ quota.maxBytes) :
      Reserves quota amount (true, { quota with usedBytes := quota.usedBytes + amount })
  | refused : Reserves quota amount (false, quota)

theorem reserveUpTo_reserves {quota : ReassemblyQuota} {limit : Nat}
    (hlimit : limit ≤ quota.maxBytes) (amount : Nat) :
    quota.Reserves amount (quota.reserveUpTo limit amount) := by
  unfold reserveUpTo
  split
  next => exact .refused
  next hfits => exact .granted ((Nat.not_lt.mp hfits).trans hlimit)

end ReassemblyQuota

namespace SequenceSession

/-- The bytes reserved for the incoming messages. -/
def reservedTotal (incoming : FlatMap MessageId MessageReassembler) : Nat :=
  incoming.total fun _ entry => entry.reservedBytes

/-- The session holds `held` bytes, the other users of the quota hold `others`, and the
quota counts both. -/
structure Counted (session : SequenceSession C) (maxBytes others held : Nat) : Prop where
  size : session.incomingBufferSize = held
  used : session.quota.usedBytes = others + held
  capacity : session.quota.maxBytes = maxBytes
  bounded : session.quota.usedBytes ≤ maxBytes
  sound : session.quota.overdrawn = false

/-- The session holds what its incoming messages have reserved. -/
def Balanced (session : SequenceSession C) (maxBytes others : Nat) : Prop :=
  session.Counted maxBytes others (reservedTotal session.incoming)

section Reservations

variable {session : SequenceSession C} {maxBytes others held amount : Nat}
variable {after : SequenceSession C} {entry : MessageReassembler} {id : MessageId}

theorem Counted.of_same (h : session.Counted maxBytes others held)
    (hsize : after.incomingBufferSize = session.incomingBufferSize)
    (hquota : after.quota = session.quota) : after.Counted maxBytes others held := by
  refine ⟨hsize.trans h.size, ?_, ?_, ?_, ?_⟩
  · rw [hquota, h.used]
  · rw [hquota, h.capacity]
  · rw [hquota]
    exact h.bounded
  · rw [hquota, h.sound]

/-- A reservation that exceeds the limit of the session is given back at once. -/
theorem reserveBytes_reserves (session : SequenceSession C) (amount : Nat) (priority : Priority) :
    session.quota.Reserves amount (session.reserveBytes amount priority) := by
  have htaken : session.quota.Reserves amount
      (if session.incomingBufferSize + amount ≤ fairShareGuarantee then
        session.quota.reserveGuaranteed amount
      else session.quota.reserve amount priority) := by
    split
    next => exact ReassemblyQuota.reserveUpTo_reserves le_rfl amount
    next => exact ReassemblyQuota.reserveUpTo_reserves (session.quota.threshold_le priority) amount
  unfold reserveBytes
  generalize (if session.incomingBufferSize + amount ≤ fairShareGuarantee then
    session.quota.reserveGuaranteed amount
  else session.quota.reserve amount priority) = taken at htaken
  cases htaken with
  | granted hfits =>
      dsimp only
      split
      next =>
        rw [if_pos rfl, ReassemblyQuota.release_of_le (Nat.le_add_left _ _)]
        simp only [Nat.add_sub_cancel]
        exact .refused
      next => exact .granted hfits
  | refused =>
      dsimp only
      rw [if_pos (.inl rfl), if_neg nofun]
      exact .refused

/-- Bytes that the session takes. -/
theorem Counted.take (h : session.Counted maxBytes others held)
    (hfits : session.quota.usedBytes + amount ≤ session.quota.maxBytes)
    (hsize : after.incomingBufferSize = session.incomingBufferSize + amount)
    (hquota : after.quota = { session.quota with usedBytes := session.quota.usedBytes + amount }) :
    after.Counted maxBytes others (held + amount) := by
  rw [h.capacity] at hfits
  refine ⟨by rw [hsize, h.size], ?_, ?_, ?_, ?_⟩
  · rw [hquota]
    exact (congrArg (· + amount) h.used).trans (Nat.add_assoc _ _ _)
  · rw [hquota]
    exact h.capacity
  · rw [hquota]
    exact hfits
  · rw [hquota]
    exact h.sound

/-- Bytes that the session gives back; it holds them, so that nothing is overdrawn. -/
theorem Counted.giveBack (h : session.Counted maxBytes others (held + amount))
    (hsize : after.incomingBufferSize = session.incomingBufferSize - amount)
    (hquota : after.quota = session.quota.release amount) : after.Counted maxBytes others held := by
  have hused := h.used
  have hbounded := h.bounded
  rw [ReassemblyQuota.release_of_le (by omega)] at hquota
  refine ⟨by rw [hsize, h.size, Nat.add_sub_cancel], ?_, ?_, ?_, ?_⟩
  · rw [hquota]
    dsimp only
    omega
  · rw [hquota]
    exact h.capacity
  · rw [hquota]
    dsimp only
    omega
  · rw [hquota]
    exact h.sound

theorem reservedTotal_erase {incoming : FlatMap MessageId MessageReassembler}
    (hget : incoming.get id = some entry) :
    reservedTotal incoming = reservedTotal (incoming.erase id) + entry.reservedBytes := by
  unfold reservedTotal
  rw [← AssocMap.total_erase incoming (fun _ entry => entry.reservedBytes) id,
    AssocMap.weightAt_of_get _ hget]

/-- The bytes of one message set apart from those of the others. -/
def Holding (session : SequenceSession C) (maxBytes others : Nat) (id : MessageId)
    (reserved : Nat) : Prop :=
  session.Counted maxBytes others (reservedTotal (session.incoming.erase id) + reserved)

theorem Holding.of_same {reserved : Nat} (h : session.Holding maxBytes others id reserved)
    (hincoming : after.incoming = session.incoming)
    (hsize : after.incomingBufferSize = session.incomingBufferSize)
    (hquota : after.quota = session.quota) : after.Holding maxBytes others id reserved := by
  unfold Holding
  rw [hincoming]
  exact Counted.of_same h hsize hquota

theorem Balanced.holding (h : session.Balanced maxBytes others)
    (hget : session.incoming.get id = some entry) :
    session.Holding maxBytes others id entry.reservedBytes := by
  unfold Balanced at h
  rwa [reservedTotal_erase hget] at h

theorem Holding.removeReassembler (h : session.Holding maxBytes others id entry.reservedBytes) :
    (session.removeReassembler id entry).Balanced maxBytes others :=
  Counted.giveBack h rfl rfl

theorem Holding.insert (h : session.Holding maxBytes others id entry.reservedBytes)
    (hincoming : after.incoming = session.incoming.insert id entry)
    (hsize : after.incomingBufferSize = session.incomingBufferSize)
    (hquota : after.quota = session.quota) : after.Balanced maxBytes others := by
  have hinsert := AssocMap.total_insert session.incoming
    (fun _ (entry : MessageReassembler) => entry.reservedBytes) id entry
  have herase := AssocMap.total_erase session.incoming
    (fun _ (entry : MessageReassembler) => entry.reservedBytes) id
  have htotal : reservedTotal after.incoming =
      reservedTotal (session.incoming.erase id) + entry.reservedBytes := by
    unfold reservedTotal
    rw [hincoming]
    omega
  unfold Balanced
  rw [htotal]
  exact Counted.of_same h hsize hquota

/-- Late discovery of the size of a message grows or shrinks its reservation. -/
theorem Holding.adjustReservation {entry adjusted : MessageReassembler}
    (h : session.Holding maxBytes others id entry.reservedBytes)
    (hadjust : session.adjustReservation entry = some (after, adjusted)) :
    after.Holding maxBytes others id adjusted.reservedBytes := by
  unfold SequenceSession.adjustReservation at hadjust
  dsimp only at hadjust
  split at hadjust
  next hgrows =>
    have hreserves := session.reserveBytes_reserves
      (entry.plannedTotalSize - entry.reservedBytes) entry.priority
    generalize session.reserveBytes (entry.plannedTotalSize - entry.reservedBytes) entry.priority =
      outcome at hreserves hadjust
    cases hreserves with
    | granted hfits =>
        rw [if_neg nofun] at hadjust
        cases hadjust
        have hheld : reservedTotal (session.incoming.erase id) + entry.plannedTotalSize =
            reservedTotal (session.incoming.erase id) + entry.reservedBytes +
              (entry.plannedTotalSize - entry.reservedBytes) := by
          omega
        unfold Holding
        dsimp only
        rw [hheld]
        exact Counted.take h hfits rfl rfl
    | refused => cases hadjust
  next hshrinks =>
    cases hadjust
    have hheld : reservedTotal (session.incoming.erase id) + entry.reservedBytes =
        reservedTotal (session.incoming.erase id) + entry.plannedTotalSize +
          (entry.reservedBytes - entry.plannedTotalSize) := by
      omega
    unfold Holding at h
    rw [hheld] at h
    exact h.giveBack rfl rfl

end Reservations

/-! ### Incoming packets and clean-up -/

section Steps

variable {session : SequenceSession C} {maxBytes others : Nat}

theorem Balanced.of_same (h : session.Balanced maxBytes others) {after : SequenceSession C}
    (hincoming : after.incoming = session.incoming)
    (hsize : after.incomingBufferSize = session.incomingBufferSize)
    (hquota : after.quota = session.quota) : after.Balanced maxBytes others := by
  unfold Balanced
  rw [hincoming]
  exact Counted.of_same h hsize hquota

theorem Balanced.ensureReassembler (h : session.Balanced maxBytes others) (id : MessageId)
    (messageType : Option MessageType) (total dataLen : Nat) (now : Instant) :
    (session.ensureReassembler id messageType total dataLen now).2.1.Balanced maxBytes others := by
  unfold SequenceSession.ensureReassembler
  split
  next entry hget =>
    -- another priority, with the same reservation
    have hmodify := AssocMap.total_modify session.incoming
      (fun _ (entry : MessageReassembler) => entry.reservedBytes) id
      (reprioritise messageType total)
    have hsame : (reprioritise messageType total entry).reservedBytes = entry.reservedBytes := by
      unfold reprioritise
      split <;> rfl
    rw [AssocMap.weightAt_of_get _ hget, hget, Option.elim_some, hsame] at hmodify
    have htotal : reservedTotal (session.incoming.modify id (reprioritise messageType total)) =
        reservedTotal session.incoming := Nat.add_right_cancel hmodify
    unfold Balanced at h ⊢
    dsimp only
    rw [htotal]
    exact h.of_same rfl rfl
  next hget =>
    dsimp only
    split
    next => exact h
    next =>
      have hreserves := session.reserveBytes_reserves (initialReservation total dataLen)
        (calculatePriority messageType total (initialReservation total dataLen))
      generalize session.reserveBytes (initialReservation total dataLen)
        (calculatePriority messageType total (initialReservation total dataLen)) =
          outcome at hreserves
      cases hreserves with
      | refused =>
          simp only [Bool.not_false, if_true]
          exact h.of_same rfl rfl rfl
      | granted hfits =>
          simp only [Bool.not_true, Bool.false_eq_true, if_false]
          split
          next entry hnew =>
            have hreserved : entry.reservedBytes = initialReservation total dataLen := by
              unfold MessageReassembler.new at hnew
              split at hnew
              · cases hnew
              · cases hnew
                rfl
            have hinsert := AssocMap.total_insert session.incoming
              (fun _ (entry : MessageReassembler) => entry.reservedBytes) id entry
            rw [AssocMap.weightAt_of_get_none _ hget, hreserved] at hinsert
            have htotal : reservedTotal (session.incoming.insert id entry) =
                reservedTotal session.incoming + initialReservation total dataLen := hinsert
            unfold Balanced
            dsimp only
            rw [htotal]
            exact Counted.take h hfits rfl rfl
          next =>
            rw [ReassemblyQuota.release_of_le (Nat.le_add_left _ _)]
            simp only [Nat.add_sub_cancel]
            exact h.of_same rfl rfl rfl

theorem Holding.completeMessage {id : MessageId} {entry : MessageReassembler}
    (h : session.Holding maxBytes others id entry.reservedBytes) (now : Instant) :
    (session.completeMessage id entry now).Balanced maxBytes others := by
  have hremoved : ({ session with
      pendingNacks := session.pendingNacks.erase id }.removeReassembler id entry).Balanced maxBytes others :=
    Holding.removeReassembler (h.of_same rfl rfl rfl)
  unfold SequenceSession.completeMessage
  dsimp only
  split
  next => exact hremoved
  next => split <;> exact hremoved.of_same rfl rfl rfl

theorem Balanced.processFragment (h : session.Balanced maxBytes others) (id : MessageId)
    (index : Nat)
    (data : Bytes) (now : Instant) :
    (session.processFragment id index data now).1.Balanced maxBytes others := by
  unfold SequenceSession.processFragment
  split
  next => exact h
  next entry hget =>
    have hreserved : (entry.addFragment index data now).2.reservedBytes = entry.reservedBytes := by
      unfold MessageReassembler.addFragment
      dsimp only
      split <;> rfl
    have hholding := h.holding hget
    rw [← hreserved] at hholding
    split
    next added hadd =>
      rw [hadd] at hholding
      exact hholding.removeReassembler
    next complete added hadd =>
      rw [hadd] at hholding
      have hnoted : (session.noteHole id index added.buffer.baseIndex now).Holding maxBytes others id
          added.reservedBytes := hholding.of_same rfl rfl rfl
      unfold fragmentAdded
      split
      next => exact hnoted.removeReassembler
      next after adjusted hadjust =>
        have hadjusted := hnoted.adjustReservation hadjust
        split
        next => exact hadjusted.completeMessage now
        next => exact hadjusted.insert rfl rfl rfl

theorem Balanced.handleDataPacket (h : session.Balanced maxBytes others) (id : MessageId)
    (index total : Nat) (data : Bytes) (now : Instant) :
    (session.handleDataPacket id index total data now).1.Balanced maxBytes others := by
  unfold SequenceSession.handleDataPacket
  split
  next => exact h
  next =>
    split
    next => exact h
    next =>
      have hensured := h.ensureReassembler id (peekedType index data) total data.length now
      split
      next refused replies heq =>
        rw [heq] at hensured
        exact hensured
      next held replies heq =>
        rw [heq] at hensured
        exact hensured.processFragment id index data now

/-- Giving back the bytes of expired messages one by one. -/
theorem Counted.foldl_release {held : Nat} (expired : List (MessageId × MessageReassembler))
    (h : session.Counted maxBytes others
      (held + (expired.map fun entry => entry.2.reservedBytes).sum)) :
    (expired.foldl
      (fun session entry => { session with
        incomingBufferSize := session.incomingBufferSize - entry.2.reservedBytes
        quota := session.quota.release entry.2.reservedBytes }) session).Counted maxBytes others held := by
  induction expired generalizing session with
  | nil => exact h
  | cons entry rest ih =>
      rw [List.map_cons, List.sum_cons, Nat.add_comm entry.2.reservedBytes, ← Nat.add_assoc] at h
      exact ih (h.giveBack rfl rfl)

theorem Balanced.cleanup (h : session.Balanced maxBytes others) (now : Instant) :
    (session.cleanup now).Balanced maxBytes others := by
  have hretain := AssocMap.total_retain session.incoming
    (fun _ (entry : MessageReassembler) => entry.reservedBytes)
    fun _ entry => !reassemblyExpired now entry
  simp only [Bool.not_not] at hretain
  have hfailed : ∀ (failed : List (MessageId × OutgoingMessage)) (start : SequenceSession C),
      (failed.foldl failMessage start).incoming = start.incoming ∧
        (failed.foldl failMessage start).incomingBufferSize = start.incomingBufferSize ∧
        (failed.foldl failMessage start).quota = start.quota := by
    intro failed
    induction failed with
    | nil => exact fun start => ⟨rfl, rfl, rfl⟩
    | cons entry rest ih => exact fun start => ih (start.failMessage entry)
  unfold Balanced at h
  unfold reservedTotal at h
  rw [← hretain] at h
  have hreleased := h.foldl_release
    (session.incoming.entries.filter fun entry => reassemblyExpired now entry.2)
  obtain ⟨size, quota, heq⟩ := exists_foldl_release
    (session.incoming.entries.filter fun entry => reassemblyExpired now entry.2) session
  rw [heq] at hreleased
  unfold SequenceSession.cleanup
  simp only [heq]
  generalize hstart : ({ session with
    incomingBufferSize := size
    quota := quota
    incoming := session.incoming.retain fun _ reassembler => !reassemblyExpired now reassembler } :
      SequenceSession C) = start
  have hbalanced : start.Balanced maxBytes others := by
    subst hstart
    exact hreleased.of_same rfl rfl
  obtain ⟨hincoming, hsize, hquota⟩ := hfailed
    (session.outgoing.entries.filter fun entry => outgoingExpired now entry.2) start
  exact hbalanced.of_same hincoming hsize hquota

end Steps

variable [FloatOps] [CongestionControl C] {session : SequenceSession C} {maxBytes others : Nat}

theorem Balanced.handlePacket (h : session.Balanced maxBytes others) (packet : Packet)
    (now : Instant)
    (systemMs jitter : Int) :
    (session.handlePacket packet now systemMs jitter).1.Balanced maxBytes others := by
  unfold SequenceSession.handlePacket
  have htouched : { session with lastActivity := now }.Balanced maxBytes others :=
    h.of_same rfl rfl rfl
  generalize { session with lastActivity := now } = touched at htouched
  suffices hinternal : (touched.handlePacketInternal packet now systemMs jitter).1.Balanced
      maxBytes others by
    unfold checkCwndChange
    dsimp only
    split
    next => exact hinternal.of_same rfl rfl rfl
    next => exact hinternal
  cases packet with
  | data id index total data => exact htouched.handleDataPacket id index total data now
  | ack ack =>
      simp only [handlePacketInternal, handleAckPacket, acknowledge]
      split
      next => split <;> exact htouched.of_same rfl rfl rfl
      next => exact htouched.of_same rfl rfl rfl
  | nack nack =>
      simp only [handlePacketInternal, handleNackPacket]
      split <;> exact htouched.of_same rfl rfl rfl
  | ping t1 => exact htouched
  | pong t1 t2 t3 =>
      simp only [handlePacketInternal, handlePong]
      split <;> exact htouched.of_same rfl rfl rfl
  | datagram messageType data => exact htouched.of_same rfl rfl rfl

end SequenceSession

/-- `Drop for SequenceSession`. -/
def SequenceSession.drop (session : SequenceSession C) : ReassemblyQuota :=
  session.quota.release session.incomingBufferSize

/-- The operation leaves the session with the quota it shares. -/
def Operation.sharesQuota : Operation → Bool
  | .call (.setQuota _) | .call (.setUsedBytes _) => false
  | _ => true

theorem SequenceSession.Balanced.step [FloatOps] [CongestionControl C]
    {session : SequenceSession C} {maxBytes others : Nat} (h : session.Balanced maxBytes others)
    {operation : Operation} (hshares : operation.sharesQuota = true) :
    (session.step operation).Balanced maxBytes others := by
  cases operation with
  | receive packet now systemMs jitter => exact h.handlePacket packet now systemMs jitter
  | call action =>
      cases action with
      | sendMessage messageType data now =>
          simp only [SequenceSession.step, Party.call, SequenceSession.sendMessageAt]
          repeat' split
          all_goals exact h.of_same rfl rfl rfl
      | setMessageTimeout messageId timeout => exact h.of_same rfl rfl rfl
      | sendDatagram messageType data =>
          simp only [SequenceSession.step, Party.call, Party.withSession,
            SequenceSession.sendDatagram]
          split
          next => exact h
          next => split <;> exact h.of_same rfl rfl rfl
      | flush now nowMs answers =>
          obtain ⟨hview, -, -⟩ := session.flushPackets_spec now nowMs answers
          simp only [SequenceSession.receiveView, Prod.mk.injEq] at hview
          obtain ⟨-, hincoming, -, -, -, hquota, -, hsize⟩ := hview
          simp only [SequenceSession.step, Party.call, Party.withSession]
          exact h.of_same hincoming hsize hquota
      | cleanup now =>
          simp only [SequenceSession.step, Party.call, Party.withSession]
          exact h.cleanup now
      | pollEvent => exact h.of_same rfl rfl rfl
      | setQuota quota => cases hshares
      | setUsedBytes usedBytes => cases hshares
      | setMaxPerSession maxPerSession => exact h.of_same rfl rfl rfl

/-! ### Sessions that share a quota -/

/-- One quota and the live sessions that were created with it. -/
structure Pool (C : Type) where
  quota : ReassemblyQuota
  sessions : AssocMap Nat (SequenceSession C)

inductive PoolCommand (C : Type)
  | create (key : Nat) (config : SessionConfig C)
  | operate (key : Nat) (operation : Operation)
  | drop (key : Nat)

namespace Pool

def new (maxBytes : Nat) : Pool C := ⟨.new maxBytes, .empty⟩

variable [FloatOps] [CongestionControl C]

/-- One call on one of the sessions; it works on the quota as the calls before it have
left it. -/
def step (pool : Pool C) : PoolCommand C → Pool C
  | .create key config =>
      if pool.sessions.contains key then pool
      else { pool with
        sessions := pool.sessions.insert key (.new { config with quota := pool.quota }) }
  | .operate key operation =>
      match pool.sessions.get key with
      | none => pool
      | some session =>
          if operation.sharesQuota then
            let session := { session with quota := pool.quota }.step operation
            ⟨session.quota, pool.sessions.insert key session⟩
          else pool
  | .drop key =>
      match pool.sessions.get key with
      | none => pool
      | some session => ⟨{ session with quota := pool.quota }.drop, pool.sessions.erase key⟩

end Pool

/-- The quota counts the bytes that the live sessions hold for their incoming messages. -/
structure Pool.Conserves (pool : Pool C) (maxBytes : Nat) : Prop where
  sizes : ∀ key session, pool.sessions.get key = some session →
    session.incomingBufferSize = SequenceSession.reservedTotal session.incoming
  used : pool.quota.usedBytes = pool.sessions.total fun _ session => session.incomingBufferSize
  capacity : pool.quota.maxBytes = maxBytes
  bounded : pool.quota.usedBytes ≤ maxBytes
  sound : pool.quota.overdrawn = false

namespace Pool

variable {pool : Pool C} {maxBytes : Nat}

/-- A live session, seen from the quota: what it holds, and what the others hold. -/
theorem Conserves.balanced (h : pool.Conserves maxBytes) {key : Nat}
    {session : SequenceSession C} (hget : pool.sessions.get key = some session) :
    { session with quota := pool.quota }.Balanced maxBytes
      ((pool.sessions.erase key).total fun _ session => session.incomingBufferSize) := by
  have htotal := AssocMap.total_erase pool.sessions
    (fun _ (session : SequenceSession C) => session.incomingBufferSize) key
  rw [AssocMap.weightAt_of_get _ hget] at htotal
  refine ⟨h.sizes key session hget, ?_, h.capacity, h.bounded, h.sound⟩
  dsimp only
  rw [h.used, ← htotal, h.sizes key session hget]

/-- Storing a session that is balanced against the others. -/
theorem Conserves.store (h : pool.Conserves maxBytes) {key : Nat}
    {session : SequenceSession C}
    (hbalanced : session.Balanced maxBytes
      ((pool.sessions.erase key).total fun _ session => session.incomingBufferSize)) :
    (⟨session.quota, pool.sessions.insert key session⟩ : Pool C).Conserves maxBytes := by
  refine ⟨?_, ?_, hbalanced.capacity, hbalanced.bounded, hbalanced.sound⟩
  · exact AssocMap.forall_insert h.sizes hbalanced.size
  · have hinsert := AssocMap.total_insert pool.sessions
      (fun _ (session : SequenceSession C) => session.incomingBufferSize) key session
    have herase := AssocMap.total_erase pool.sessions
      (fun _ (session : SequenceSession C) => session.incomingBufferSize) key
    have hused := hbalanced.used
    have hsize := hbalanced.size
    dsimp only
    omega

variable [FloatOps] [CongestionControl C]

theorem Conserves.step (h : pool.Conserves maxBytes) (command : PoolCommand C) :
    (pool.step command).Conserves maxBytes := by
  cases command with
  | create key config =>
      unfold Pool.step
      dsimp only
      split
      next => exact h
      next habsent =>
        rw [AssocMap.contains_eq, Bool.not_eq_true, Option.isSome_eq_false_iff,
          Option.isNone_iff_eq_none] at habsent
        have htotal := AssocMap.total_erase pool.sessions
          (fun _ (session : SequenceSession C) => session.incomingBufferSize) key
        rw [AssocMap.weightAt_of_get_none _ habsent] at htotal
        have hnew : (SequenceSession.new { config with quota := pool.quota }).Balanced maxBytes
            ((pool.sessions.erase key).total fun _ session => session.incomingBufferSize) :=
          ⟨rfl, h.used.trans htotal.symm, h.capacity, h.bounded, h.sound⟩
        exact h.store hnew
  | operate key operation =>
      unfold Pool.step
      dsimp only
      split
      next => exact h
      next session hget =>
        split
        next hshares => exact h.store ((h.balanced hget).step hshares)
        next => exact h
  | drop key =>
      unfold Pool.step
      dsimp only
      split
      next => exact h
      next session hget =>
        -- What a dropped session releases is what it is counted with.
        have hused := h.used
        have htotal := AssocMap.total_erase pool.sessions
          (fun _ (session : SequenceSession C) => session.incomingBufferSize) key
        rw [AssocMap.weightAt_of_get _ hget] at htotal
        have hbounded := h.bounded
        unfold SequenceSession.drop
        dsimp only
        rw [ReassemblyQuota.release_of_le (by omega)]
        refine ⟨?_, ?_, h.capacity, ?_, h.sound⟩
        · intro other found hother
          exact h.sizes other found (AssocMap.get_of_erase hother).2
        · dsimp only
          omega
        · dsimp only
          omega

/-- In every state of the sessions that share a quota, each session counts the bytes its
incoming messages have reserved, the quota counts those of all live sessions and stays
below its maximum, and no release has exceeded what was reserved. -/
theorem run_conserves (maxBytes : Nat) (commands : List (PoolCommand C)) :
    (runFrom Pool.step (Pool.new maxBytes) commands).Conserves maxBytes := by
  have hempty : ∀ key, (Pool.new maxBytes : Pool C).sessions.get key = none := fun _ => rfl
  have hnew : (Pool.new maxBytes : Pool C).Conserves maxBytes := by
    refine ⟨fun key session hget => ?_, rfl, rfl, Nat.zero_le maxBytes, rfl⟩
    rw [hempty] at hget
    exact absurd hget.symm (Option.some_ne_none session)
  have hstep : ∀ (pool : Pool C) command, pool.Conserves maxBytes →
      (pool.step command).Conserves maxBytes := fun _ command h => h.step command
  exact runFrom_invariant hstep commands hnew

end Pool

end MerkleTox.Sequenced
