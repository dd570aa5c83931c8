import MerkleTox.Sequenced.Network

/-! # End-to-end integrity

As long as a sender has taken fewer than `2 ^ 32` message ids, an id names one
message. Every data packet it ever sent is then a slice of that message, every
reassembler of its peer holds slices of one message only, and what the peer
completes is the message itself: `completed_message_was_sent`.
-/

namespace MerkleTox.Sequenced

open Proto Library

variable {C : Type}

/-- What an outgoing message is made of when the envelope is queued. -/
def Envelope.content (envelope : Envelope) : MessageType × Bytes × Nat × Nat :=
  (envelope.messageType, envelope.serialize, OutgoingMessage.defaultPayloadMtu,
    OutgoingMessage.countFragments envelope.serialize OutgoingMessage.defaultPayloadMtu)

/-- The number of fragments of an envelope. -/
def Envelope.fragmentCount (envelope : Envelope) : Nat :=
  OutgoingMessage.countFragments envelope.serialize OutgoingMessage.defaultPayloadMtu

/-- The fragment of an envelope at an index. -/
def Envelope.fragment (envelope : Envelope) (index : Nat) : Bytes :=
  OutgoingMessage.fragmentOf envelope.serialize OutgoingMessage.defaultPayloadMtu index

namespace Party

/-- A call of the party queued the envelope under that id. -/
def Sent (party : Party C) (id : MessageId) (envelope : Envelope) : Prop :=
  (⟨envelope, .ok id⟩ : SendCall) ∈ party.calls

/-- The calls that took an id: all but those refused because the queue was full. -/
def takenIds (party : Party C) : Nat :=
  party.calls.countP fun call => match call.result with
    | .error .queueFull => false
    | _ => true

end Party

namespace SequenceSession

theorem freeId_eq {outgoing : FlatMap MessageId OutgoingMessage} {id : MessageId}
    (habsent : outgoing.contains id = false) (rounds : Nat) : freeId outgoing rounds id = id := by
  cases rounds <;> simp [freeId, habsent]

/-- Everything `send_message_at` can do, when the next id is not in use. -/
inductive SendOutcome (session : SequenceSession C) (envelope : Envelope) :
    Except SequencedError MessageId → SequenceSession C → Prop
  | full : SendOutcome session envelope (.error .queueFull) session
  | tooLarge :
      SendOutcome session envelope (.error .messageTooLarge)
        { session with nextMessageId := session.nextMessageId + 1 }
  | queued (msg : OutgoingMessage) (scheduler : PriorityScheduler)
      (hsize : envelope.serialize.length ≤ maxMessageSize)
      (hcontent : msg.content = envelope.content) (hcounted : msg.AcksCounted)
      (hunacked : ∀ idx, msg.ackedBitset.get idx = false) :
      SendOutcome session envelope (.ok session.nextMessageId)
        { session with
          nextMessageId := session.nextMessageId + 1
          scheduler := scheduler
          outgoing := session.outgoing.insert session.nextMessageId msg }

theorem sendMessageAt_outcome (session : SequenceSession C) (messageType : MessageType)
    (data : Bytes) (now : Instant)
    (habsent : session.outgoing.contains session.nextMessageId = false) :
    SendOutcome session ⟨messageType, data⟩ (session.sendMessageAt messageType data now).1
      (session.sendMessageAt messageType data now).2 := by
  simp only [sendMessageAt, freeId_eq habsent]
  split
  next => exact .full
  next =>
    rw [if_neg (by simp [habsent])]
    split
    next => exact .tooLarge
    next hsize =>
      rw [if_neg (by decide)]
      split
      next err herr =>
        simp only [OutgoingMessage.new] at herr
        split at herr
        · cases herr
          exact .tooLarge
        · cases herr
      next msg hmsg =>
        obtain ⟨hcontent, hcounted, hunacked⟩ := OutgoingMessage.new_spec hmsg
        exact .queued msg _ (Nat.not_lt.mp hsize) hcontent hcounted hunacked

end SequenceSession

/-! ### The sending side -/

/-- The ids of a sender's messages lie right behind its counter, each names one
envelope, and the outgoing messages are among them. -/
structure Numbered (party : Party C) : Prop where
  recent : ∀ id envelope, party.Sent id envelope →
    1 ≤ (party.session.nextMessageId - id).toNat ∧
      (party.session.nextMessageId - id).toNat ≤ party.takenIds
  unique : ∀ id first second, party.Sent id first → party.Sent id second → first = second
  size_le : ∀ id envelope, party.Sent id envelope → envelope.serialize.length ≤ maxMessageSize
  outgoing : ∀ id msg, party.session.outgoing.get id = some msg →
    ∃ envelope, party.Sent id envelope ∧ msg.content = envelope.content ∧ msg.AcksCounted

theorem numbered_new (config : SessionConfig C) : Numbered (Party.new config) where
  recent := by simp [Party.Sent, Party.new]
  unique := by simp [Party.Sent, Party.new]
  size_le := by simp [Party.Sent, Party.new]
  outgoing := by simp [Party.new, SequenceSession.new]

variable {party party' : Party C} {envelope : Envelope} {session : SequenceSession C}
variable {id : MessageId} {wire packets : List Packet}

section

variable (h : Numbered party) (hcalls : party'.calls = party.calls) (hnext :
  party'.session.nextMessageId = party.session.nextMessageId)
include h hcalls hnext

/-- A change that keeps the calls, the counter and the content of messages. -/
theorem Numbered.of_outgoing (hout : ∀ id msg', party'.session.outgoing.get id = some msg' →
      ∃ msg, party.session.outgoing.get id = some msg ∧ msg'.content = msg.content ∧
        (msg.AcksCounted → msg'.AcksCounted)) : Numbered party' := by
  have hsent : ∀ id envelope, party'.Sent id envelope ↔ party.Sent id envelope := by
    intro id envelope
    simp only [Party.Sent, hcalls]
  have htaken : party'.takenIds = party.takenIds := by simp only [Party.takenIds, hcalls]
  refine ⟨?_, ?_, ?_, ?_⟩
  · intro id envelope henvelope
    rw [hnext, htaken]
    exact h.recent id envelope ((hsent id envelope).mp henvelope)
  · intro id first second hfirst hsecond
    exact h.unique id first second ((hsent id first).mp hfirst) ((hsent id second).mp hsecond)
  · intro id envelope henvelope
    exact h.size_le id envelope ((hsent id envelope).mp henvelope)
  · intro id msg' hmsg'
    obtain ⟨msg, hmsg, hcontent, hcounted⟩ := hout id msg' hmsg'
    obtain ⟨envelope, henvelope, hmsgContent, hmsgCounted⟩ := h.outgoing id msg hmsg
    exact ⟨envelope, (hsent id envelope).mpr henvelope, hcontent.trans hmsgContent,
      hcounted hmsgCounted⟩

theorem Numbered.of_sameOutgoing (hout : party'.session.SameOutgoing party.session) :
    Numbered party' := by
  refine h.of_outgoing hcalls hnext fun id msg' hmsg' => ?_
  have hview := hout id
  rw [hmsg', Option.map_some] at hview
  obtain ⟨msg, hmsg, heq⟩ := Option.map_eq_some_iff.mp hview.symm
  exact ⟨msg, hmsg, OutgoingMessage.content_eq_of_ackView_eq heq.symm,
    fun hcounted => hcounted.of_ackView_eq heq.symm⟩

end

/-- The counter is not an id in use, as long as fewer than `2 ^ 32` ids are taken. -/
theorem Numbered.next_not_sent {party : Party C} (h : Numbered party) (envelope : Envelope) :
    ¬ party.Sent party.session.nextMessageId envelope := by
  intro hsent
  have hrecent := (h.recent _ _ hsent).1
  simp at hrecent

theorem Numbered.next_absent {party : Party C} (h : Numbered party) :
    party.session.outgoing.contains party.session.nextMessageId = false := by
  rw [AssocMap.contains_eq, Option.isSome_eq_false_iff, Option.isNone_iff_eq_none]
  cases hget : party.session.outgoing.get party.session.nextMessageId with
  | none => rfl
  | some msg =>
      obtain ⟨envelope, henvelope, -⟩ := h.outgoing _ msg hget
      exact absurd henvelope (h.next_not_sent envelope)

theorem toNat_succ_sub {next id : MessageId} {taken : Nat}
    (hle : (next - id).toNat ≤ taken) (hbound : taken + 1 < 2 ^ 32) :
    (next + 1 - id).toNat = (next - id).toNat + 1 := by
  have hcomm : next + 1 - id = (next - id) + 1 := by
    rw [BitVec.sub_eq_add_neg, BitVec.sub_eq_add_neg, BitVec.add_assoc, BitVec.add_comm 1,
      ← BitVec.add_assoc]
  rw [hcomm, BitVec.toNat_add]
  simp only [BitVec.ofNat_eq_ofNat, BitVec.toNat_ofNat]
  omega

namespace Party

/-- The party after a finished call of `send_message_at`. -/
def recordSend (party : Party C) (envelope : Envelope) (result : Except SequencedError MessageId)
    (session : SequenceSession C) : Party C :=
  { party with session := session, calls := party.calls ++ [⟨envelope, result⟩] }

variable {result : Except SequencedError MessageId}

theorem sent_recordSend {party : Party C} {other : Envelope} :
    (party.recordSend envelope result session).Sent id other ↔
      party.Sent id other ∨ (other = envelope ∧ result = .ok id) := by
  simp [Sent, recordSend, eq_comm]

theorem takenIds_recordSend_full (party : Party C) (envelope : Envelope)
    (session : SequenceSession C) :
    (party.recordSend envelope (.error .queueFull) session).takenIds = party.takenIds := by
  simp [takenIds, recordSend]

theorem takenIds_recordSend (party : Party C) (envelope : Envelope) (session : SequenceSession C)
    (htaken : result ≠ .error .queueFull) :
    (party.recordSend envelope result session).takenIds = party.takenIds + 1 := by
  cases result with
  | ok id => simp [takenIds, recordSend]
  | error err => cases err <;> simp_all [takenIds, recordSend]

theorem takenIds_le_recordSend (party : Party C) (envelope : Envelope)
    (result : Except SequencedError MessageId) (session : SequenceSession C) :
    party.takenIds ≤ (party.recordSend envelope result session).takenIds := by
  simp [takenIds, recordSend]

end Party

/-- A refused call adds no message; only the counter may have moved. -/
theorem Numbered.recordError {party : Party C} (h : Numbered party) {err : SequencedError}
    (hout : session.outgoing = party.session.outgoing) (hrecent : ∀ id other, party.Sent id other →
      1 ≤ (session.nextMessageId - id).toNat ∧ (session.nextMessageId - id).toNat ≤
        (party.recordSend envelope (.error err) session).takenIds) :
    Numbered (party.recordSend envelope (.error err) session) := by
  have hsent : ∀ id other, (party.recordSend envelope (.error err) session).Sent id other ↔
      party.Sent id other := by
    intro id other
    simp [Party.sent_recordSend]
  refine ⟨?_, ?_, ?_, ?_⟩
  · intro id other hother
    exact hrecent id other ((hsent id other).mp hother)
  · intro id first second hfirst hsecond
    exact h.unique id first second ((hsent id first).mp hfirst) ((hsent id second).mp hsecond)
  · intro id other hother
    exact h.size_le id other ((hsent id other).mp hother)
  · intro id msg hmsg
    simp only [Party.recordSend, hout] at hmsg
    obtain ⟨other, hother, hcontent⟩ := h.outgoing id msg hmsg
    exact ⟨other, (hsent id other).mpr hother, hcontent⟩

theorem Numbered.recordSend {party : Party C} (h : Numbered party)
    {result : Except SequencedError MessageId}
    (houtcome : SequenceSession.SendOutcome party.session envelope result session)
    (hbound : (party.recordSend envelope result session).takenIds < 2 ^ 32) :
    Numbered (party.recordSend envelope result session) := by
  -- A full queue gives no number away; the other two outcomes give one, and below the bound it is
  -- new.
  cases houtcome with
  | full =>
      refine h.recordError rfl fun id other hother => ?_
      rw [Party.takenIds_recordSend_full]
      exact h.recent id other hother
  | tooLarge =>
      rw [Party.takenIds_recordSend _ _ _ (by simp)] at hbound
      refine h.recordError rfl fun id other hother => ?_
      obtain ⟨hpos, hle⟩ := h.recent id other hother
      rw [Party.takenIds_recordSend _ _ _ (by simp), toNat_succ_sub hle hbound]
      omega
  | queued msg scheduler hsize hcontent hcounted hunacked =>
      rw [Party.takenIds_recordSend _ _ _ (by simp)] at hbound
      refine ⟨?_, ?_, ?_, ?_⟩
      · intro id other hother
        rw [Party.takenIds_recordSend _ _ _ (by simp)]
        rcases Party.sent_recordSend.mp hother with hold | ⟨-, hid⟩
        · obtain ⟨hpos, hle⟩ := h.recent id other hold
          simp only [Party.recordSend, toNat_succ_sub hle hbound]
          omega
        · cases hid
          have hzero : (party.session.nextMessageId - party.session.nextMessageId).toNat ≤
              party.takenIds := by simp
          simp only [Party.recordSend, toNat_succ_sub hzero hbound]
          simp
      · intro id first second hfirst hsecond
        rcases Party.sent_recordSend.mp hfirst with hold | ⟨heq, hid⟩
        · rcases Party.sent_recordSend.mp hsecond with hold' | ⟨-, hid⟩
          · exact h.unique id first second hold hold'
          · cases hid
            exact absurd hold (h.next_not_sent first)
        · cases hid
          rcases Party.sent_recordSend.mp hsecond with hold' | ⟨heq', -⟩
          · exact absurd hold' (h.next_not_sent second)
          · rw [heq, heq']
      · intro id other hother
        rcases Party.sent_recordSend.mp hother with hold | ⟨rfl, -⟩
        · exact h.size_le id other hold
        · exact hsize
      · intro id other hother
        simp only [Party.recordSend, AssocMap.get_insert] at hother
        split at hother
        next heq =>
          cases hother
          exact ⟨envelope, Party.sent_recordSend.mpr (.inr ⟨rfl, by rw [heq]⟩), hcontent, hcounted⟩
        next =>
          obtain ⟨old, hold, hrest⟩ := h.outgoing id other hother
          exact ⟨old, Party.sent_recordSend.mpr (.inl hold), hrest⟩

/-! ### One direction of the network -/

/-- A data packet is a slice of a message that was sent. -/
def SliceOf (sent : MessageId → Envelope → Prop) : Packet → Prop
  | .data id index total data => ∃ envelope, sent id envelope ∧ total = envelope.fragmentCount ∧
      data = envelope.fragment index
  | _ => True

/-- A partial message holds slices of one message that was sent. -/
def HoldsPart (sent : MessageId → Envelope → Prop) (id : MessageId)
    (view : MessageId × Nat × FragmentBuffer) : Prop :=
  view.1 = id ∧ ∃ envelope, sent id envelope ∧ view.2.1 = envelope.fragmentCount ∧
    view.2.2.totalFragments = envelope.fragmentCount ∧ view.2.2.Coherent ∧
    view.2.2.HoldsOnly envelope.fragment

/-- The messages from a sender to a receiver, given the packets the sender has sent. -/
structure Intact (sender receiver : Party C) (wire : List Packet) : Prop where
  numbered : Numbered sender
  slices : ∀ packet ∈ wire, SliceOf sender.Sent packet
  buffered : ∀ id view, receiver.session.buffered id = some view → HoldsPart sender.Sent id view
  completed : ∀ id messageType payload,
    SessionEvent.messageCompleted id messageType payload ∈ receiver.dataEvents →
      sender.Sent id ⟨messageType, payload⟩

variable {packet : Packet} {sent sent' : MessageId → Envelope → Prop}
variable {sender sender' receiver : Party C} {action : Action} {data : Bytes} {index total : Nat}
variable {events : List SessionEvent}

theorem SliceOf.mono (hmono : ∀ id envelope, sent id envelope → sent' id envelope)
    (h : SliceOf sent packet) : SliceOf sent' packet := by
  cases packet with
  | data id index total data =>
      obtain ⟨envelope, hsent, hrest⟩ := h
      exact ⟨envelope, hmono id envelope hsent, hrest⟩
  | ack | nack | ping | pong | datagram => trivial

theorem HoldsPart.mono (hmono : ∀ id envelope, sent id envelope → sent' id envelope)
    {view : MessageId × Nat × FragmentBuffer} (h : HoldsPart sent id view) :
    HoldsPart sent' id view := by
  obtain ⟨hid, envelope, hsent, hrest⟩ := h
  exact ⟨hid, envelope, hmono id envelope hsent, hrest⟩

/-- The sender has moved and sent packets. -/
theorem Intact.of_sender (h : Intact sender receiver wire) (hnumbered : Numbered sender')
    (hmono : ∀ id envelope, sender.Sent id envelope → sender'.Sent id envelope)
    (hpackets : ∀ packet ∈ packets, SliceOf sender.Sent packet) :
    Intact sender' receiver (wire ++ packets) where
  numbered := hnumbered
  slices := by
    intro packet hpacket
    rcases List.mem_append.mp hpacket with hold | hnew
    · exact (h.slices packet hold).mono hmono
    · exact (hpackets packet hnew).mono hmono
  buffered id view hview := (h.buffered id view hview).mono hmono
  completed id messageType payload hevent := hmono _ _ (h.completed id messageType payload hevent)

theorem Envelope.covered (envelope : Envelope)
    (hsize : envelope.serialize.length ≤ maxMessageSize) :
    envelope.serialize.length ≤ envelope.fragmentCount * OutgoingMessage.defaultPayloadMtu ∧
      0 < envelope.fragmentCount :=
  OutgoingMessage.countFragments_spec envelope.serialize_length_pos hsize

/-- The fragments a numbered sender may send are slices of its messages. -/
theorem Numbered.slice_of_entitled {party : Party C} (h : Numbered party)
    (hentitled : party.session.Entitled packet) : SliceOf party.Sent packet := by
  cases packet with
  | data id index total data =>
      obtain ⟨msg, hget, rfl, rfl⟩ := hentitled
      obtain ⟨envelope, hsent, hcontent, -⟩ := h.outgoing id msg hget
      simp only [OutgoingMessage.content, Envelope.content, Prod.mk.injEq] at hcontent
      obtain ⟨-, hdata, hmtu, hnum⟩ := hcontent
      refine ⟨envelope, hsent, hnum, ?_⟩
      have hcover := (envelope.covered (h.size_le id envelope hsent)).1
      rw [OutgoingMessage.getFragment_eq, hdata, hmtu]
      · rfl
      · rw [hdata, hmtu, hnum]
        exact hcover
  | ack | nack | ping | pong | datagram => trivial

theorem takenIds_le_of_call {packets : List Packet}
    (houtcome : Party.CallOutcome party action party' packets) :
    party.takenIds ≤ party'.takenIds := by
  cases houtcome with
  | sent messageType data now => exact party.takenIds_le_recordSend _ _ _
  | transmitted => exact le_refl _
  | cleaned => exact le_refl _

theorem Intact.sender_call (h : Intact sender receiver wire)
    (houtcome : Party.CallOutcome sender action sender' packets)
    (hbound : sender'.takenIds < 2 ^ 32) : Intact sender' receiver (wire ++ packets) := by
  cases houtcome with
  | sent messageType data now =>
      have hsend := sender.session.sendMessageAt_outcome messageType data now h.numbered.next_absent
      exact h.of_sender (h.numbered.recordSend hsend hbound)
        (fun id envelope hsent => List.mem_append_left _ hsent) (by simp)
  | transmitted action session' packets hnext hview hout hpackets =>
      exact h.of_sender (h.numbered.of_sameOutgoing rfl hnext hout) (fun _ _ hsent => hsent)
        fun packet hpacket => h.numbered.slice_of_entitled (hpackets packet hpacket)
  | cleaned now =>
      obtain ⟨hnext, hout, -⟩ := sender.session.cleanup_spec now
      refine h.of_sender (h.numbered.of_outgoing rfl hnext fun id msg hmsg => ?_)
        (fun _ _ hsent => hsent) (by simp)
      have hfiltered := (hout id).symm.trans hmsg
      rw [Option.filter_eq_some_iff] at hfiltered
      exact ⟨msg, hfiltered.1, rfl, fun hcounted => hcounted⟩

/-- The replies to a packet carry no data. -/
theorem replies_sliceOf {session session' : SequenceSession C} {now : Instant}
    {replies : List Packet} {sent : MessageId → Envelope → Prop}
    (h : SequenceSession.DataOutcome session id index total data now session' replies) :
    ∀ packet ∈ replies, SliceOf sent packet := by
  intro packet hpacket
  obtain ⟨ack, rfl⟩ := h.replies_ack packet hpacket
  trivial

/-! ### The receiving side -/

theorem buffered_congr {first second : SequenceSession C}
    (h : first.receiverView = second.receiverView) (id : MessageId) :
    first.buffered id = second.buffered id := by
  simp only [SequenceSession.receiverView, Prod.mk.injEq] at h
  simp only [SequenceSession.buffered, h.1]

theorem receiverView_sendMessageAt (session : SequenceSession C) (messageType : MessageType)
    (data : Bytes) (now : Instant) :
    (session.sendMessageAt messageType data now).2.receiverView = session.receiverView := by
  simp only [SequenceSession.sendMessageAt]
  split
  next => rfl
  next =>
    split
    next => rfl
    next =>
      split
      next => rfl
      next =>
        split
        next => rfl
        next => split <;> rfl

theorem Intact.of_receiver {sender receiver receiver' : Party C} {wire : List Packet}
    (h : Intact sender receiver wire)
    (hbuffered : ∀ id view, receiver'.session.buffered id = some view →
      receiver.session.buffered id = some view)
    (hevents : receiver'.dataEvents = receiver.dataEvents) : Intact sender receiver' wire where
  numbered := h.numbered
  slices := h.slices
  buffered id view hview := h.buffered id view (hbuffered id view hview)
  completed := by
    rw [hevents]
    exact h.completed

theorem Intact.receiver_call {sender receiver receiver' : Party C} (h : Intact sender receiver wire)
    (houtcome : Party.CallOutcome receiver action receiver' packets) :
    Intact sender receiver' wire := by
  cases houtcome with
  | sent messageType data now =>
      refine h.of_receiver (fun id view hview => ?_) rfl
      exact (buffered_congr (receiverView_sendMessageAt _ messageType data now) id).symm.trans hview
  | transmitted action session' packets hnext hview hout hpackets =>
      exact h.of_receiver (fun id view hbuffered => (buffered_congr hview id).symm.trans hbuffered)
        rfl
  | cleaned now =>
      obtain ⟨-, -, hincoming, -⟩ := receiver.session.cleanup_spec now
      refine h.of_receiver (fun id view hview => ?_) rfl
      obtain ⟨entry, hentry, rfl⟩ := Option.map_eq_some_iff.mp hview
      rw [Party.withSession, hincoming id, Option.filter_eq_some_iff] at hentry
      rw [SequenceSession.buffered, hentry.1]
      rfl

variable {before buffer : FragmentBuffer} {network : Network C}

/-- Adding a slice of the message keeps a buffer coherent and pure. -/
theorem addFragment_slice {after : FragmentBuffer} {fragment : Nat → Bytes} {index : Nat}
    {complete : Bool} (hcoherent : before.Coherent) (hholds : before.HoldsOnly fragment)
    (hadd : before.addFragment index (fragment index) = (.ok complete, after)) :
    after.Coherent ∧ after.HoldsOnly fragment ∧ after.totalFragments = before.totalFragments := by
  simp only [FragmentBuffer.addFragment] at hadd
  split at hadd
  next => cases hadd
  next hindex =>
    split at hadd
    next =>
      cases hadd
      exact ⟨hcoherent, hholds, rfl⟩
    next hget =>
      cases hadd
      exact ⟨hcoherent.store _ (Nat.not_le.mp hindex) (Bool.eq_false_of_not_eq_true hget),
        hholds.store index, rfl⟩

/-- A complete buffer of one message completes that message. -/
theorem completionEvents_eq (id : MessageId) (hsize : envelope.serialize.length ≤ maxMessageSize)
    (hcoherent : buffer.Coherent) (hholds : buffer.HoldsOnly envelope.fragment)
    (htotal : buffer.totalFragments = envelope.fragmentCount)
    (hcomplete : buffer.isComplete = true) : SequenceSession.completionEvents id buffer =
      [.messageCompleted id envelope.messageType envelope.payload] := by
  have hassemble := hcoherent.assemble_eq hholds hcomplete
  rw [htotal] at hassemble
  have hflatten : ((List.range envelope.fragmentCount).map envelope.fragment).flatten =
      envelope.serialize :=
    OutgoingMessage.flatten_fragmentOf (envelope.covered hsize).1
  have hpayload : envelope.payload.length < 2 ^ 32 := by
    have hle := envelope.payload_length_le.trans hsize
    simp only [maxMessageSize] at hle
    omega
  rw [SequenceSession.completionEvents, hassemble, hflatten, Option.bind_some,
    envelope.deserialize_serialize hpayload]

/-- The reassembler a slice is added to holds slices of the same message. -/
theorem Intact.opens_holdsPart {sender receiver : Party C} {wire : List Packet}
    (h : Intact sender receiver wire) {id messageId : MessageId} {highest : Option MessageId}
    (hsent : sender.Sent id envelope)
    (hopens : receiver.session.Opens id envelope.fragmentCount messageId before highest) :
    messageId = id ∧ before.totalFragments = envelope.fragmentCount ∧ before.Coherent ∧
      before.HoldsOnly envelope.fragment := by
  rcases hopens with ⟨hbuffered, -⟩ | ⟨-, hid, hnew, -, hle, -⟩
  · obtain ⟨hid, other, hother, -, htotal, hcoherent, hholds⟩ := h.buffered id _ hbuffered
    have heq := h.numbered.unique id other envelope hother hsent
    subst heq
    exact ⟨hid, htotal, hcoherent, hholds⟩
  · subst hnew
    exact ⟨hid, rfl, FragmentBuffer.coherent_new hle, FragmentBuffer.holdsOnly_new _ _⟩

theorem dataEvents_append_data
    (h : party'.deliveries = party.deliveries ++ [⟨.data id index total data, events⟩]) :
    party'.dataEvents = party.dataEvents ++ events := by
  simp [Party.dataEvents, h]

theorem dataEvents_append_other
    (hpacket : ∀ id index total data, packet ≠ .data id index total data)
    (h : party'.deliveries = party.deliveries ++ [⟨packet, events⟩]) :
    party'.dataEvents = party.dataEvents := by
  cases packet with
  | data id index total data => exact absurd rfl (hpacket id index total data)
  | ack | nack | ping | pong | datagram => simp [Party.dataEvents, h]

/-- Only the completion events of a data packet count. -/
theorem mem_dataEvents (new : List SessionEvent) {extra : List SessionEvent}
    (hdeliveries : party'.deliveries = party.deliveries ++
      [⟨.data id index total data, (session.events ++ extra).drop party.session.events.length⟩])
    (hnew : session.events = party.session.events ++ new) (hextra : Party.OnlyWindowChanges extra)
    {other : MessageId} {messageType : MessageType} {payload : Bytes} :
    SessionEvent.messageCompleted other messageType payload ∈ party'.dataEvents ↔
      SessionEvent.messageCompleted other messageType payload ∈ party.dataEvents ∨
        SessionEvent.messageCompleted other messageType payload ∈ new := by
  have hnot : SessionEvent.messageCompleted other messageType payload ∉ extra := by
    intro hmem
    obtain ⟨cwnd, hcwnd⟩ := hextra _ hmem
    cases hcwnd
  rw [dataEvents_append_data hdeliveries, hnew, List.append_assoc, List.drop_left]
  simp [hnot]

/-! ### Steps of the network -/

/-- Every direction whose sender has not run out of ids is intact. -/
def Network.AllIntact (network : Network C) : Prop :=
  ∀ side, (network.party side).takenIds < 2 ^ 32 →
    Intact (network.party side) (network.party side.other) (network.wire side)

theorem allIntact_new (config : Side → SessionConfig C) : (Network.new config).AllIntact := by
  intro side _
  exact ⟨numbered_new _, by simp [Network.new],
    by simp [Network.new, Party.new, SequenceSession.buffered, SequenceSession.new],
    by simp [Network.new, Party.new, Party.dataEvents]⟩

/-- A side moves: it is the sender of one direction and the receiver of the other. -/
theorem Network.AllIntact.put (h : network.AllIntact) (side : Side)
    (outcome : Party C × List Packet) (htaken : (network.party side).takenIds ≤ outcome.1.takenIds)
    (hsender : outcome.1.takenIds < 2 ^ 32 → ∀ receiver wire,
      Intact (network.party side) receiver wire → Intact outcome.1 receiver (wire ++ outcome.2))
    (hreceiver : Intact (network.party side.other) (network.party side) (network.wire side.other) →
      Intact (network.party side.other) outcome.1 (network.wire side.other)) :
    (network.put side outcome).AllIntact := by
  intro direction hbound
  by_cases hdirection : direction = side
  · subst hdirection
    simp only [Network.party_put_self, Network.party_put_other, Network.wire_put_self] at hbound ⊢
    exact hsender hbound _ _ (h direction (lt_of_le_of_lt htaken hbound))
  · have hother : direction = side.other := by
      cases direction <;> cases side <;> simp_all [Side.other]
    subst hother
    simp only [Network.party_put_other, Network.wire_put_other, Side.other_other,
      Network.party_put_self] at hbound ⊢
    have hold := h side.other hbound
    rw [Side.other_other] at hold
    exact hreceiver hold

section Steps

variable [FloatOps] [CongestionControl C]

theorem takenIds_receive (party : Party C) (packet : Packet) (now : Instant)
    (systemMs jitter : Int) :
    (party.receive packet now systemMs jitter).1.takenIds = party.takenIds := rfl

variable {sender receiver : Party C}

section

variable {wire : List Packet} (h : Intact sender receiver wire)
include h

theorem Intact.sender_receive (packet : Packet) (now : Instant) (systemMs jitter : Int) :
    Intact (sender.receive packet now systemMs jitter).1 receiver
      (wire ++ (sender.receive packet now systemMs jitter).2) := by
  -- Control packets reach no message and no reassembler, so only the replies are new.
  have hcontrol : Party.IsControl packet →
      Intact (sender.receive packet now systemMs jitter).1 receiver
        (wire ++ (sender.receive packet now systemMs jitter).2) := by
    intro hpacket
    obtain ⟨hreplies, -, hout, hnext, hcalls, -⟩ :=
      sender.receive_control hpacket now systemMs jitter
    refine h.of_sender (h.numbered.of_sameOutgoing hcalls hnext hout) (fun _ _ hsent => hsent) ?_
    intro reply hreply
    have hreplyControl := hreplies reply hreply
    cases reply with
    | data => exact hreplyControl.elim
    | ack | nack | ping | pong | datagram => trivial
  cases packet with
  | data id index total data =>
      obtain ⟨middle, extra, houtcome, -, hout, hnext, hcalls, -⟩ :=
        sender.receive_data id index total data now systemMs jitter
      exact h.of_sender (h.numbered.of_sameOutgoing hcalls hnext (.of_eq hout))
        (fun _ _ hsent => hsent) (replies_sliceOf houtcome)
  | ack ack =>
      obtain ⟨hreplies, middle, extra, houtcome, -, hout, hnext, hcalls, -⟩ :=
        sender.receive_ack ack now systemMs jitter
      refine h.of_sender (h.numbered.of_outgoing hcalls hnext fun id msg' hmsg' => ?_)
        (fun _ _ hsent => hsent) (by simp [hreplies])
      rw [hout] at hmsg'
      cases houtcome with
      | unknown hget hsame hevents =>
          rw [hsame] at hmsg'
          exact ⟨msg', hmsg', rfl, fun hcounted => hcounted⟩
      | acked msg hget hother hself hevents =>
          -- The acknowledged message keeps its content and its count of acknowledged fragments.
          by_cases heq : id = ack.messageId
          · subst heq
            rw [hself] at hmsg'
            cases hmsg'
            obtain ⟨-, -, -, hcounted⟩ := h.numbered.outgoing _ msg hget
            obtain ⟨hcontent, hcounted', -⟩ := msg.onAck_spec ack now _ hcounted
            exact ⟨msg, hget, hcontent, fun _ => hcounted'⟩
          · rw [hother id heq] at hmsg'
            exact ⟨msg', hmsg', rfl, fun hcounted => hcounted⟩
      | finished msg hget hall hother hself hevents =>
          by_cases heq : id = ack.messageId
          · subst heq
            rw [hself] at hmsg'
            cases hmsg'
          · rw [hother id heq] at hmsg'
            exact ⟨msg', hmsg', rfl, fun hcounted => hcounted⟩
  | nack | ping | pong | datagram => exact hcontrol trivial

theorem Intact.receiver_data {index total : Nat} {data : Bytes}
    (hslice : SliceOf sender.Sent (.data id index total data)) (now : Instant)
    (systemMs jitter : Int) :
    Intact sender (receiver.receive (.data id index total data) now systemMs jitter).1 wire := by
  obtain ⟨envelope, hsent, rfl, rfl⟩ := hslice
  obtain ⟨middle, extra, houtcome, hview, -, -, -, hdeliveries, hextra⟩ :=
    receiver.receive_data id index envelope.fragmentCount (envelope.fragment index) now systemMs
      jitter
  set receiver' := (receiver.receive (.data id index envelope.fragmentCount
    (envelope.fragment index)) now systemMs jitter).1
  have hmiddle := buffered_congr hview
  have hsize := h.numbered.size_le id envelope hsent
  -- nothing new is buffered or completed
  have hquiet : (∀ other, middle.buffered other = receiver.session.buffered other) →
      middle.events = receiver.session.events → Intact sender receiver' wire := by
    intro hbuffered hevents
    refine ⟨h.numbered, h.slices, fun other view hother => ?_,
      fun other messageType payload hother => ?_⟩
    · exact h.buffered other view (((hmiddle other).trans (hbuffered other)).symm.trans hother)
    · rw [mem_dataEvents [] hdeliveries (by simpa using hevents) hextra] at hother
      exact h.completed other messageType payload (by simpa using hother)
  cases houtcome with
  | resent entry rwnd hentry hsession hreplies =>
      exact hquiet (fun other => by rw [hsession]; rfl) (by rw [hsession])
  | refused hbuffered hcompleted hhighest hevents hreplies => exact hquiet hbuffered hevents
  | processed messageId before hfresh hrecent hopens hother heffect =>
      obtain ⟨hid, htotal, hcoherent, hholds⟩ := h.opens_holdsPart hsent hopens
      have hothers : ∀ other view, other ≠ id → receiver'.session.buffered other = some view →
          HoldsPart sender.Sent other view := by
        intro other view hne hview
        exact h.buffered other view (((hmiddle other).trans (hother other hne)).symm.trans hview)
      cases heffect with
      | dropped hbuffered hcompleted hevents hreplies hdiscards =>
          refine ⟨h.numbered, h.slices, fun other view hview => ?_,
            fun other messageType payload hevent => ?_⟩
          · by_cases hne : other = id
            · rw [hne, hmiddle id, hbuffered] at hview
              cases hview
            · exact hothers other view hne hview
          · rw [mem_dataEvents [] hdeliveries (by simpa using hevents) hextra] at hevent
            exact h.completed other messageType payload (by simpa using hevent)
      | kept after hafter hbuffered hcompleted hevents hreplies =>
          obtain ⟨hcoherent', hholds', htotal'⟩ := addFragment_slice hcoherent hholds hafter
          refine ⟨h.numbered, h.slices, fun other view hview => ?_,
            fun other messageType payload hevent => ?_⟩
          · by_cases hne : other = id
            · subst hne
              rw [hmiddle other, hbuffered] at hview
              cases hview
              exact ⟨hid, envelope, hsent, rfl, htotal'.trans htotal, hcoherent', hholds'⟩
            · exact hothers other view hne hview
          · rw [mem_dataEvents [] hdeliveries (by simpa using hevents) hextra] at hevent
            exact h.completed other messageType payload (by simpa using hevent)
      | delivered after rwnd hafter hbuffered hcompleted hevents hreplies =>
          obtain ⟨hcoherent', hholds', htotal'⟩ := addFragment_slice hcoherent hholds hafter
          have hcompletes := completionEvents_eq id hsize hcoherent' hholds' (htotal'.trans htotal)
            (SequenceSession.addFragment_isComplete hafter)
          refine ⟨h.numbered, h.slices, fun other view hview => ?_,
            fun other messageType payload hevent => ?_⟩
          · by_cases hne : other = id
            · rw [hne, hmiddle id, hbuffered] at hview
              cases hview
            · exact hothers other view hne hview
          · rw [mem_dataEvents _ hdeliveries hevents hextra, hcompletes,
              List.mem_singleton] at hevent
            rcases hevent with hold | hnew
            · exact h.completed other messageType payload hold
            · cases hnew
              exact hsent

theorem Intact.receiver_receive {packet : Packet} (hpacket : packet ∈ wire) (now : Instant)
    (systemMs jitter : Int) :
    Intact sender (receiver.receive packet now systemMs jitter).1 wire := by
  have hcontrol : Party.IsControl packet →
      Intact sender (receiver.receive packet now systemMs jitter).1 wire := by
    intro hpacket
    obtain ⟨-, hview, -, -, -, events, hdeliveries, -⟩ :=
      receiver.receive_control hpacket now systemMs jitter
    refine h.of_receiver (fun id view hbuffered => (buffered_congr hview id).symm.trans hbuffered) ?_
    refine dataEvents_append_other (fun id index total data heq => ?_) hdeliveries
    rw [heq] at hpacket
    exact hpacket
  cases packet with
  | data id index total data => exact h.receiver_data (h.slices _ hpacket) now systemMs jitter
  | ack ack =>
      obtain ⟨-, middle, extra, -, hview, -, -, -, hdeliveries, -⟩ :=
        receiver.receive_ack ack now systemMs jitter
      exact h.of_receiver (fun id view hbuffered => (buffered_congr hview id).symm.trans hbuffered)
        (dataEvents_append_other (by simp) hdeliveries)
  | nack | ping | pong | datagram => exact hcontrol trivial

end

theorem Network.AllIntact.step (h : network.AllIntact) (command : Command) :
    (network.step command).AllIntact := by
  cases command with
  | call side action =>
      have houtcome := (network.party side).call_outcome action
      exact h.put side _ (takenIds_le_of_call houtcome)
        (fun hbound receiver wire hintact => hintact.sender_call houtcome hbound)
        (fun hintact => hintact.receiver_call houtcome)
  | deliver side index now systemMs jitter =>
      simp only [Network.step]
      split
      next => exact h
      next packet hpacket =>
        exact h.put side _ (le_of_eq (takenIds_receive _ packet now systemMs jitter).symm)
          (fun _ receiver wire hintact => hintact.sender_receive packet now systemMs jitter)
          (fun hintact => hintact.receiver_receive (List.mem_of_getElem? hpacket) now systemMs jitter)

theorem allIntact_run (config : Side → SessionConfig C) (commands : List Command) :
    (Network.run config commands).AllIntact :=
  runFrom_invariant (fun _ command h => h.step command) commands (allIntact_new config)

/-- End-to-end integrity: whatever the network does with the packets, a message
completed on account of data packets is one the peer queued under that id, with
exactly its type and payload, as long as the peer has taken fewer than `2 ^ 32`
ids. -/
theorem completed_message_was_sent (config : Side → SessionConfig C) (commands : List Command)
    (sender : Side) (hids : ((Network.run config commands).party sender).takenIds < 2 ^ 32)
    (delivery : Delivery)
    (hdelivery : delivery ∈ ((Network.run config commands).party sender.other).deliveries)
    (hdata : ∃ id index total data, delivery.packet = .data id index total data)
    (id : MessageId) (messageType : MessageType) (payload : Bytes)
    (hevent : SessionEvent.messageCompleted id messageType payload ∈ delivery.events) :
    ∃ call ∈ ((Network.run config commands).party sender).calls,
      call.result = .ok id ∧ call.envelope = ⟨messageType, payload⟩ := by
  have hintact := allIntact_run config commands sender hids
  obtain ⟨_, _, _, _, hpacket⟩ := hdata
  refine ⟨_, hintact.completed id messageType payload ?_, rfl, rfl⟩
  refine List.mem_flatMap.mpr ⟨delivery, hdelivery, ?_⟩
  rw [hpacket]
  exact hevent

end Steps

/-- A message of two fragments, of which the second is delivered first. -/
def referenceExchange : List Command :=
  [.call .left (.sendMessage .merkleNode (List.replicate 1400 7) 0), .call .left (.flush 0 0 []),
    .deliver .right 2 1000 0 0, .deliver .right 1 1000 0 0]

theorem completed_message_was_sent_reference :
    ∃ call ∈ ((referenceRun referenceExchange).party .left).calls,
      call.result = .ok 5 ∧ call.envelope = ⟨.merkleNode, List.replicate 1400 7⟩ := by
  unfold referenceRun
  exact @completed_message_was_sent FixedWindow exactFloatOps _ referenceConfig referenceExchange
    .left (by decide +kernel)
    ⟨.data 5 0 2 ([0x92, 0x05, 0xc5, 0x05, 0x78] ++ List.replicate 1348 7),
      [.messageCompleted 5 .merkleNode (List.replicate 1400 7)]⟩
    (by decide +kernel) ⟨5, 0, 2, _, rfl⟩ 5 .merkleNode (List.replicate 1400 7) (.head _)

end MerkleTox.Sequenced
