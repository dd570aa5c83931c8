import MerkleTox.Sequenced.FlushMoves

/-! # What a data packet does to a session

`SequenceSession.handleDataPacket_outcome` says once, by cases, what a data
packet can do to the receiving side; the invariants of the network are derived
from it and never unfold the handler. A reassembler is seen through its id, its
number of fragments and its buffer; priorities, reservations and clocks are not
part of the view.
-/

namespace MerkleTox.Sequenced

open Proto

variable {index total : Nat} {complete : Bool}
variable {C : Type}

def MessageReassembler.view (reassembler : MessageReassembler) :
    MessageId × Nat × FragmentBuffer :=
  (reassembler.messageId, reassembler.totalFragments, reassembler.buffer)

namespace SequenceSession

/-- The partial message a session holds for an id. -/
def buffered (session : SequenceSession C) (id : MessageId) :
    Option (MessageId × Nat × FragmentBuffer) :=
  (session.incoming.get id).map MessageReassembler.view

/-- The next `highest_received_id` when a reassembler for `id` is created. -/
def raiseHighest (session : SequenceSession C) (id : MessageId) : Option MessageId :=
  if session.highestReceivedId.all fun highest => (id - highest).toNat < 0x80000000 then some id
  else session.highestReceivedId

/-- The fragment makes the session give up a reassembler it held before: the
fragment is not admitted, or the growth of the reservation is refused. -/
def discardsReassembler (session : SequenceSession C) (id : MessageId) (index total : Nat)
    (data : Bytes) (now : Instant) : Bool :=
  match session.incoming.get id with
  | none => false
  | some entry =>
      match (reprioritise (peekedType index data) total entry).addFragment index data now with
      | (.error _, _) => true
      | (.ok _, entry) => (session.adjustReservation entry).isNone

/-- The reassembler a fragment is added to: the one held, or a new one, which may
raise the highest id. -/
def Opens (session : SequenceSession C) (id : MessageId) (total : Nat) (messageId : MessageId)
    (before : FragmentBuffer) (highest : Option MessageId) : Prop :=
  (session.buffered id = some (messageId, total, before) ∧ highest = session.highestReceivedId) ∨
    (session.buffered id = none ∧ messageId = id ∧ before = .new total ∧ 0 < total ∧
      total ≤ maxFragmentsPerMessage ∧ highest = session.raiseHighest id)

/-- Replies that acknowledge nothing. -/
def OnlyRejections (id : MessageId) (replies : List Packet) : Prop :=
  ∀ packet ∈ replies, ∃ rwnd, packet = .ack ⟨id, 0, 0, rwnd⟩

/-- The events of a complete buffer. -/
def completionEvents (id : MessageId) (buffer : FragmentBuffer) : List SessionEvent :=
  match buffer.assemble.bind Envelope.deserialize with
  | some envelope => [.messageCompleted id envelope.messageType envelope.payload]
  | none => []

/-- The ways a processed fragment can end. -/
inductive FragmentEffect (session : SequenceSession C) (id : MessageId) (index total : Nat)
    (data : Bytes) (now : Instant) (messageId : MessageId) (before : FragmentBuffer)
    (session' : SequenceSession C) (replies : List Packet) : Prop
  | dropped (hbuffered : session'.buffered id = none)
      (hcompleted : session'.completedIncoming = session.completedIncoming)
      (hevents : session'.events = session.events) (hreplies : OnlyRejections id replies)
      (hdiscards : session.incoming.contains id = true →
        session.discardsReassembler id index total data now = true)
  | kept (after : FragmentBuffer) (hafter : before.addFragment index data = (.ok false, after))
      (hbuffered : session'.buffered id = some (messageId, total, after))
      (hcompleted : session'.completedIncoming = session.completedIncoming)
      (hevents : session'.events = session.events) (hreplies : replies = [])
  | delivered (after : FragmentBuffer) (rwnd : Nat)
      (hafter : before.addFragment index data = (.ok true, after))
      (hbuffered : session'.buffered id = none)
      (hcompleted : session'.completedIncoming = insertCompleted session.completedIncoming id
        ⟨messageId, after.baseIndex, after.receivedMask.sackMask after.baseIndex, rwnd⟩ now)
      (hevents : session'.events = session.events ++ completionEvents id after)
      (hreplies : replies = [])

/-- The ways a data packet can end. -/
inductive DataOutcome (session : SequenceSession C) (id : MessageId) (index total : Nat)
    (data : Bytes) (now : Instant) (session' : SequenceSession C) (replies : List Packet) : Prop
  | resent (entry : SelectiveAck × Instant) (rwnd : Nat)
      (hentry : session.completedIncoming.get id = some entry) (hsession : session' = session)
      (hreplies : replies = [.ack { entry.1 with rwnd := rwnd }])
  | refused (hbuffered : ∀ other, session'.buffered other = session.buffered other)
      (hcompleted : session'.completedIncoming = session.completedIncoming)
      (hhighest : session'.highestReceivedId = session.highestReceivedId)
      (hevents : session'.events = session.events) (hreplies : OnlyRejections id replies)
  | processed (messageId : MessageId) (before : FragmentBuffer)
      (hfresh : session.completedIncoming.get id = none)
      (hrecent : session.isAncientMessage id = false)
      (hopens : session.Opens id total messageId before session'.highestReceivedId)
      (hother : ∀ other, other ≠ id → session'.buffered other = session.buffered other)
      (heffect : FragmentEffect session id index total data now messageId before session' replies)

variable {data : Bytes} {id : MessageId} {now : Instant} {replies : List Packet}
variable {session session' : SequenceSession C}

/-- A data packet is answered by acknowledgements only. -/
theorem DataOutcome.replies_ack (h : DataOutcome session id index total data now session' replies) :
    ∀ packet ∈ replies, ∃ ack, packet = .ack ack := by
  have hreject : OnlyRejections id replies → ∀ packet ∈ replies, ∃ ack, packet = .ack ack := by
    intro honly packet hpacket
    obtain ⟨rwnd, rfl⟩ := honly packet hpacket
    exact ⟨_, rfl⟩
  cases h with
  | resent entry rwnd hentry hsession hreplies =>
      intro packet hpacket
      rw [hreplies, List.mem_singleton] at hpacket
      exact ⟨_, hpacket⟩
  | refused hbuffered hcompleted hhighest hevents hreplies => exact hreject hreplies
  | processed messageId before hfresh hrecent hopens hother heffect =>
      cases heffect with
      | dropped hbuffered hcompleted hevents hreplies hdiscards => exact hreject hreplies
      | kept after hafter hbuffered hcompleted hevents hreplies => simp [hreplies]
      | delivered after rwnd hafter hbuffered hcompleted hevents hreplies => simp [hreplies]

theorem buffered_eq_none_iff {session : SequenceSession C} :
    session.buffered id = none ↔ session.incoming.contains id = false := by
  rw [buffered, Option.map_eq_none_iff, Library.AssocMap.contains_eq, Option.isSome_eq_false_iff,
    Option.isNone_iff_eq_none]

theorem view_reprioritise (messageType : Option MessageType) (total : Nat)
    (entry : MessageReassembler) : (reprioritise messageType total entry).view = entry.view := by
  unfold reprioritise
  split <;> rfl

/-- Changing a priority is invisible in the view. -/
theorem buffered_reprioritise (session : SequenceSession C) (id other : MessageId)
    (messageType : Option MessageType) (total : Nat) :
    { session with incoming :=
        session.incoming.modify id (reprioritise messageType total) }.buffered other =
      session.buffered other := by
  simp only [buffered]
  by_cases heq : other = id
  · subst heq
    rw [Library.AssocMap.get_modify_self, Option.map_map]
    congr 1
    exact funext (view_reprioritise messageType total)
  · rw [Library.AssocMap.get_modify_of_ne _ _ heq]

/-- Everything but the incoming map, the quota and the highest id. -/
def frameView (session : SequenceSession C) :=
  (session.nextMessageId, session.outgoing, session.completedIncoming, session.events)

/-- A refused reassembler leaves the view alone; an admitted one is the one held
or a new one, and nothing else changes. -/
theorem ensureReassembler_spec (session : SequenceSession C) (id : MessageId)
    (messageType : Option MessageType) (total dataLen : Nat) (now : Instant) :
    ∀ ok session' replies,
      session.ensureReassembler id messageType total dataLen now = (ok, session', replies) →
      session'.frameView = session.frameView ∧
      (∀ other, other ≠ id → session'.buffered other = session.buffered other) ∧
      (ok = false → session'.buffered id = session.buffered id ∧
        session'.highestReceivedId = session.highestReceivedId ∧ OnlyRejections id replies) ∧
      (ok = true → replies = [] ∧ ∃ messageId before,
        session'.buffered id = some (messageId, total, before) ∧
        session.Opens id total messageId before session'.highestReceivedId) := by
  intro ok session' replies heq
  simp only [ensureReassembler] at heq
  split at heq
  next entry hget =>
    -- the entry exists; at most its priority changes
    have hbuffered : session.buffered id = some entry.view := by rw [buffered, hget]; rfl
    cases heq
    have hsame := fun other => buffered_reprioritise session id other messageType total
    refine ⟨rfl, fun other _ => hsame other, fun _ => ⟨hsame id, rfl, by simp [OnlyRejections]⟩,
      fun hok => ?_⟩
    rw [beq_iff_eq] at hok
    refine ⟨rfl, entry.messageId, entry.buffer, (hsame id).trans ?_, .inl ⟨?_, rfl⟩⟩ <;>
      rw [hbuffered, MessageReassembler.view, hok]
  next hget =>
    have hnone : session.buffered id = none := by rw [buffered, hget]; rfl
    have hreject : ∀ other : SequenceSession C,
        OnlyRejections id [other.createRejectionAck id] := by
      intro other packet hpacket
      exact ⟨other.currentRwnd, List.mem_singleton.mp hpacket⟩
    split at heq
    next =>
      cases heq
      exact ⟨rfl, fun _ _ => rfl, fun _ => ⟨rfl, rfl, hreject _⟩, fun h => absurd h (by decide)⟩
    next =>
      split at heq
      next =>
        cases heq
        exact ⟨rfl, fun _ _ => rfl, fun _ => ⟨rfl, rfl, hreject _⟩, fun h => absurd h (by decide)⟩
      next =>
        split at heq
        next reassembler hnew =>
          cases heq
          simp only [MessageReassembler.new] at hnew
          split at hnew
          · cases hnew
          next hvalid =>
            rw [not_or] at hvalid
            have hview := (Except.ok.inj hnew)
            refine ⟨rfl, ?_, fun h => absurd h (by decide), fun _ => ⟨rfl, id, .new total, ?_, ?_⟩⟩
            · intro other hne
              simp only [buffered, Library.AssocMap.get_insert_of_ne _ _ hne]
            · simp only [buffered, Library.AssocMap.get_insert_self, ← hview]
              rfl
            · exact .inr ⟨hnone, rfl, rfl, Nat.pos_of_ne_zero hvalid.1, Nat.not_lt.mp hvalid.2, rfl⟩
        next =>
          cases heq
          exact ⟨rfl, fun _ _ => rfl, fun _ => ⟨rfl, rfl, hreject _⟩, fun h => absurd h (by decide)⟩

theorem addFragment_ok {reassembler reassembler' : MessageReassembler}
    (h : reassembler.addFragment index data now = (.ok complete, reassembler')) :
    reassembler.buffer.addFragment index data = (.ok complete, reassembler'.buffer) ∧
      reassembler'.messageId = reassembler.messageId ∧
      reassembler'.totalFragments = reassembler.totalFragments := by
  simp only [MessageReassembler.addFragment] at h
  split at h
  next => cases h
  next =>
    simp only [Prod.mk.injEq] at h
    obtain ⟨hresult, rfl⟩ := h
    exact ⟨Prod.ext hresult rfl, rfl, rfl⟩

/-- Adjusting a reservation only moves quota. -/
theorem adjustReservation_some {entry entry' : MessageReassembler}
    (h : session.adjustReservation entry = some (session', entry')) :
    session'.frameView = session.frameView ∧ session'.incoming = session.incoming ∧
      session'.highestReceivedId = session.highestReceivedId ∧ entry'.view = entry.view := by
  simp only [adjustReservation] at h
  split at h
  next =>
    split at h
    next => cases h
    next =>
      cases h
      exact ⟨rfl, rfl, rfl, rfl⟩
  next =>
    cases h
    exact ⟨rfl, rfl, rfl, rfl⟩

/-- A growth is refused exactly when the larger reservation is. -/
theorem adjustReservation_isNone (session : SequenceSession C) (entry : MessageReassembler) :
    (session.adjustReservation entry).isNone =
      (decide (entry.reservedBytes < entry.plannedTotalSize) &&
        !(session.reserveBytes (entry.plannedTotalSize - entry.reservedBytes) entry.priority).1) := by
  simp only [adjustReservation]
  split
  next hgrows =>
    split
    next hrefused => simp_all
    next hreserved => simp_all
  next hfits => simp [hfits]

theorem buffered_erase_self (session : SequenceSession C) (id : MessageId)
    (entry : MessageReassembler) : (session.removeReassembler id entry).buffered id = none := by
  simp [buffered, removeReassembler]

theorem buffered_erase_of_ne (session : SequenceSession C) {id other : MessageId}
    (entry : MessageReassembler) (hne : other ≠ id) :
    (session.removeReassembler id entry).buffered other = session.buffered other := by
  simp [buffered, removeReassembler, Library.AssocMap.get_erase_of_ne _ hne]

/-- Completion empties the slot, records the acknowledgement and emits the message. -/
theorem completeMessage_spec (session : SequenceSession C) (id : MessageId)
    (entry : MessageReassembler) (now : Instant) (hcomplete : entry.buffer.isComplete = true) :
    (session.completeMessage id entry now).buffered id = none ∧
      (∀ other, other ≠ id →
        (session.completeMessage id entry now).buffered other = session.buffered other) ∧
      (session.completeMessage id entry now).outgoing = session.outgoing ∧
      (session.completeMessage id entry now).nextMessageId = session.nextMessageId ∧
      (session.completeMessage id entry now).highestReceivedId = session.highestReceivedId ∧
      (∃ rwnd, (session.completeMessage id entry now).completedIncoming =
        insertCompleted session.completedIncoming id (entry.createAck rwnd) now) ∧
      (session.completeMessage id entry now).events =
        session.events ++ completionEvents id entry.buffer := by
  set removed := ({ session with pendingNacks := session.pendingNacks.erase id } :
    SequenceSession C).removeReassembler id entry with hremoved
  have hself : removed.buffered id = none := buffered_erase_self _ id entry
  have hother : ∀ other, other ≠ id → removed.buffered other = session.buffered other :=
    fun other hne => buffered_erase_of_ne _ entry hne
  have hassemble : ∃ assembled, entry.buffer.assemble = some assembled := by
    simp [FragmentBuffer.assemble, hcomplete]
  obtain ⟨assembled, hassembled⟩ := hassemble
  simp only [completeMessage, MessageReassembler.assemble, completionEvents, hassembled,
    Option.bind_some, ← hremoved]
  cases Envelope.deserialize assembled with
  | some envelope => exact ⟨hself, hother, rfl, rfl, rfl, ⟨_, rfl⟩, rfl⟩
  | none => exact ⟨hself, hother, rfl, rfl, rfl, ⟨_, rfl⟩, (List.append_nil _).symm⟩

theorem addFragment_isComplete {buffer after : FragmentBuffer}
    (h : buffer.addFragment index data = (.ok complete, after)) : after.isComplete = complete := by
  simp only [FragmentBuffer.addFragment] at h
  split at h
  next => cases h
  next =>
    split at h
    next =>
      cases h
      rfl
    next =>
      cases h
      rfl

theorem onlyRejections_singleton (session : SequenceSession C) (id : MessageId) :
    OnlyRejections id [session.createRejectionAck id] := by
  intro packet hpacket
  exact ⟨session.currentRwnd, List.mem_singleton.mp hpacket⟩

/-- The admission of a growth depends on the quota fields only. -/
theorem adjustReservation_isNone_congr {first second : SequenceSession C}
    (hquota : first.quota = second.quota) (hmax : first.maxPerSession = second.maxPerSession)
    (hsize : first.incomingBufferSize = second.incomingBufferSize) (entry : MessageReassembler) :
    (first.adjustReservation entry).isNone = (second.adjustReservation entry).isNone := by
  simp only [adjustReservation_isNone, reserveBytes, hquota, hmax, hsize]

/-- A reassembler held before the packet is the one the fragment is added to, with
its priority brought up to date. -/
theorem ensureReassembler_held {session held : SequenceSession C} {messageType : Option MessageType}
    {dataLen : Nat} {entry old : MessageReassembler}
    (heq : session.ensureReassembler id messageType total dataLen now = (true, held, replies))
    (hget : held.incoming.get id = some entry) (hold : session.incoming.get id = some old) :
    entry = reprioritise messageType total old ∧
      ∀ other, (held.adjustReservation other).isNone = (session.adjustReservation other).isNone := by
  simp only [ensureReassembler, hold] at heq
  simp only [Prod.mk.injEq] at heq
  obtain ⟨-, rfl, -⟩ := heq
  simp only [Library.AssocMap.get_modify_self, hold, Option.map_some, Option.some.injEq] at hget
  exact ⟨hget.symm, adjustReservation_isNone_congr rfl rfl rfl⟩

/-- The effect of adding a fragment to a reassembler the session holds. The last
hypothesis ties a drop to the predicate on the session before the packet. -/
theorem processFragment_spec (session : SequenceSession C) {held : SequenceSession C} (index : Nat)
    (data : Bytes) (now : Instant) {entry : MessageReassembler}
    (hget : held.incoming.get id = some entry) (htotal : entry.totalFragments = total)
    (hframe : held.frameView = session.frameView)
    (hheld : ∀ old, session.incoming.get id = some old →
      entry = reprioritise (peekedType index data) total old ∧
        ∀ other, (held.adjustReservation other).isNone =
          (session.adjustReservation other).isNone) :
    (held.processFragment id index data now).1.outgoing = session.outgoing ∧
      (held.processFragment id index data now).1.nextMessageId = session.nextMessageId ∧
      (held.processFragment id index data now).1.highestReceivedId = held.highestReceivedId ∧
      (∀ other, other ≠ id →
        (held.processFragment id index data now).1.buffered other = held.buffered other) ∧
      FragmentEffect session id index total data now entry.messageId entry.buffer
        (held.processFragment id index data now).1 (held.processFragment id index data now).2 := by
  simp only [frameView, Prod.mk.injEq] at hframe
  obtain ⟨hnext, hout, hcompleted, hevents⟩ := hframe
  -- Whatever makes this call drop the reassembler is read off the session before it.
  have hreason : ∀ result entry', entry.addFragment index data now = (result, entry') →
      (∀ complete, result = .ok complete → (held.adjustReservation entry').isNone = true) →
      session.incoming.contains id = true →
      session.discardsReassembler id index total data now = true := by
    intro result entry' hadd hnone hcontains
    rw [Library.AssocMap.contains_eq, Option.isSome_iff_exists] at hcontains
    obtain ⟨old, hold⟩ := hcontains
    obtain ⟨hentry, hadmits⟩ := hheld old hold
    simp only [discardsReassembler, hold, ← hentry, hadd]
    cases result with
    | error err => rfl
    | ok complete => exact (hadmits entry').symm.trans (hnone complete rfl)
  simp only [processFragment, hget]
  split
  next err entry' hadd =>
    refine ⟨hout, hnext, rfl, fun other hne => buffered_erase_of_ne _ _ hne,
      .dropped (buffered_erase_self _ _ _) hcompleted hevents (by simp [OnlyRejections]) ?_⟩
    exact hreason _ _ hadd (by simp)
  next complete entry' hadd =>
    obtain ⟨hbuffer, hid, hentryTotal⟩ := addFragment_ok hadd
    simp only [fragmentAdded]
    split
    -- The fragment fits, but the memory for it is refused.
    next hrefused =>
      refine ⟨hout, hnext, rfl, fun other hne => buffered_erase_of_ne _ _ hne,
        .dropped (buffered_erase_self _ _ _) hcompleted hevents (onlyRejections_singleton _ _) ?_⟩
      refine hreason _ _ hadd fun _ _ => ?_
      have hisNone := congrArg Option.isNone hrefused
      rw [adjustReservation_isNone] at hisNone
      rw [adjustReservation_isNone]
      exact hisNone
    next adjusted entry'' hadjust =>
      obtain ⟨hframe', hincoming', hhighest', hview⟩ := adjustReservation_some hadjust
      simp only [frameView, Prod.mk.injEq] at hframe'
      obtain ⟨hnext', hout', hcompleted', hevents'⟩ := hframe'
      have hbuffered' : ∀ other, adjusted.buffered other = held.buffered other := by
        intro other
        rw [buffered, hincoming']
        rfl
      simp only [MessageReassembler.view, Prod.mk.injEq] at hview
      obtain ⟨hviewId, hviewTotal, hviewBuffer⟩ := hview
      cases complete with
      | true =>
          obtain ⟨hself, hother, hout'', hnext'', hhighest'', ⟨rwnd, hrecord⟩, hevents''⟩ :=
            adjusted.completeMessage_spec id entry'' now
              (hviewBuffer ▸ addFragment_isComplete hbuffer)
          refine ⟨(hout''.trans hout').trans hout, (hnext''.trans hnext').trans hnext,
            hhighest''.trans hhighest', fun other hne => (hother other hne).trans
              (hbuffered' other),
            .delivered entry'.buffer rwnd hbuffer hself ?_ ?_ rfl⟩
          · have hack : entry''.createAck rwnd = ⟨entry.messageId, entry'.buffer.baseIndex,
                entry'.buffer.receivedMask.sackMask entry'.buffer.baseIndex, rwnd⟩ := by
              simp [MessageReassembler.createAck, hviewId, hviewBuffer, hid]
            rw [if_pos rfl, hrecord, hack, hcompleted'.trans hcompleted]
          · rw [if_pos rfl, hevents'', hevents'.trans hevents, hviewBuffer]
      | false =>
          refine ⟨hout'.trans hout, hnext'.trans hnext, hhighest', fun other hne => ?_,
            .kept entry'.buffer hbuffer ?_ (hcompleted'.trans hcompleted) (hevents'.trans hevents)
              rfl⟩
          · rw [← hbuffered' other]
            simp [buffered, Library.AssocMap.get_insert_of_ne _ _ hne]
          · simp [buffered, Library.AssocMap.get_insert_self, MessageReassembler.view, hviewId,
              hviewTotal, hviewBuffer, hid, hentryTotal, htotal]

/-- Everything a data packet can do. -/
theorem handleDataPacket_outcome (session : SequenceSession C) (id : MessageId)
    (index total : Nat) (data : Bytes) (now : Instant) :
    (session.handleDataPacket id index total data now).1.outgoing = session.outgoing ∧
      (session.handleDataPacket id index total data now).1.nextMessageId = session.nextMessageId ∧
      DataOutcome session id index total data now
        (session.handleDataPacket id index total data now).1
        (session.handleDataPacket id index total data now).2 := by
  simp only [handleDataPacket]
  split
  next reply hreply =>
    simp only [checkCompletedMessage, Option.map_eq_some_iff] at hreply
    obtain ⟨entry, hentry, rfl⟩ := hreply
    exact ⟨rfl, rfl, .resent entry session.currentRwnd hentry rfl rfl⟩
  next hreply =>
    rw [checkCompletedMessage, Option.map_eq_none_iff] at hreply
    split
    next => exact ⟨rfl, rfl, .refused (fun _ => rfl) rfl rfl rfl (by simp [OnlyRejections])⟩
    next hrecent =>
      split
      next refusedSession replies heq =>
        obtain ⟨hframe, hother, hrefused, -⟩ := session.ensureReassembler_spec _ _ _ _ _ _ _ _ heq
        simp only [frameView, Prod.mk.injEq] at hframe
        obtain ⟨hnext, hout, hcompleted, hevents⟩ := hframe
        obtain ⟨hself, hhighest, hreplies⟩ := hrefused rfl
        refine ⟨hout, hnext, .refused (fun other => ?_) hcompleted hhighest hevents hreplies⟩
        by_cases hne : other = id
        · exact hne ▸ hself
        · exact hother other hne
      next held replies heq =>
        obtain ⟨hframe, hother, -, hheld⟩ := session.ensureReassembler_spec _ _ _ _ _ _ _ _ heq
        obtain ⟨rfl, messageId, before, hbuffered, hopens⟩ := hheld rfl
        obtain ⟨entry, hentry, hview⟩ := Option.map_eq_some_iff.mp hbuffered
        simp only [MessageReassembler.view, Prod.mk.injEq] at hview
        obtain ⟨rfl, htotal, rfl⟩ := hview
        obtain ⟨hout, hnext, hhighest, hothers, heffect⟩ :=
          processFragment_spec session index data now
            hentry htotal hframe (fun old hold => ensureReassembler_held heq hentry hold)
        refine ⟨hout, hnext, .processed entry.messageId entry.buffer hreply ?_ ?_ ?_ ?_⟩
        · simpa using hrecent
        · exact hhighest ▸ hopens
        · exact fun other hne => (hothers other hne).trans (hother other hne)
        · exact heffect

end SequenceSession

end MerkleTox.Sequenced
