import MerkleTox.Sequenced.Integrity

/-! # Reliable delivery

A sender reports a message as acknowledged when all its fragments are. The
receiver acknowledges fragments of a reassembler it may still discard, and the
sender keeps those acknowledgements, so the acknowledgements of two reassemblers
can add up to a message that was never complete (`acked_not_completed`). When the
receiver discards a reassembler only if nothing of it was acknowledged, or the
sender has given the message up, an acknowledged message was completed
(`acked_was_completed`).
-/

namespace MerkleTox.Sequenced

open Proto Library

variable {index other total : Nat} {data : Bytes} {action : Action} {now : Instant}
  {packet : Packet}
variable {C : Type}

/-- The receiver has the fragment, or has completed the message. -/
def Party.HasFragment (party : Party C) (id : MessageId) (index : Nat) : Prop :=
  party.HasCompleted id ∨ ∃ view, party.session.buffered id = some view ∧
    view.2.2.receivedMask.get index = true

/-- Losing what the receiver holds of a message does no harm: the sender does not
hold the message, or no acknowledgement sent so far names a fragment of it. -/
def HarmlessLoss (sender : Party C) (replies : List Packet) (id : MessageId) : Prop :=
  sender.session.outgoing.contains id = false ∨
    ∀ ack, Packet.ack ack ∈ replies → ack.messageId = id → ack.baseIndex = 0 ∧ ack.bitmask = 0

/-- The receiver discards reassemblers, by clean-up or on a refused fragment, only
where that does no harm. -/
def DiscardsHarmlessly (sender : Side) (network : Network C) : Command → Prop
  | .call side (.cleanup now) => side = sender.other →
      ∀ id entry, (network.party side).session.incoming.get id = some entry →
        SequenceSession.reassemblyExpired now entry = true →
          HarmlessLoss (network.party sender) (network.wire sender.other) id
  | .deliver side index now _ _ => side = sender.other →
      ∀ id fragment total data,
        (network.wire side.other)[index]? = some (.data id fragment total data) →
        (network.party side).session.discardsReassembler id fragment total data now = true →
        HarmlessLoss (network.party sender) (network.wire sender.other) id
  | _ => True

/-- The acknowledgements from a receiver to a sender. -/
structure Acknowledged (sender receiver : Party C) (replies : List Packet) : Prop where
  /-- An acknowledgement of a message the sender holds names fragments the receiver has. -/
  sound : ∀ ack, Packet.ack ack ∈ replies → sender.session.outgoing.contains ack.messageId = true →
    ∀ index, ack.Names index → receiver.HasFragment ack.messageId index
  /-- Acknowledgements are for messages that were sent. -/
  known : ∀ ack, Packet.ack ack ∈ replies → ∃ envelope, sender.Sent ack.messageId envelope
  /-- What the sender counts as acknowledged was acknowledged. -/
  acked : ∀ id msg, sender.session.outgoing.get id = some msg →
    ∀ index, msg.ackedBitset.get index = true →
      ∃ ack, Packet.ack ack ∈ replies ∧ ack.messageId = id ∧ ack.Names index
  incomplete : ∀ id view, receiver.session.buffered id = some view → view.2.2.isComplete = false
  recorded : ∀ id entry, receiver.session.completedIncoming.get id = some entry →
    receiver.HasCompleted id ∧ entry.1.messageId = id
  finished : ∀ id, sender.HasAcked id → receiver.HasCompleted id

/-! ### Acknowledgements of a buffer -/

theorem not_names_rejection (id : MessageId) (rwnd index : Nat) :
    ¬ (⟨id, 0, 0, rwnd⟩ : SelectiveAck).Names index := by
  simp [SelectiveAck.Names]

variable {id : MessageId} {sender receiver : Party C} {replies : List Packet}
variable {party party' : Party C}

/-- An acknowledgement made from a coherent buffer names only received fragments. -/
theorem names_received {buffer : FragmentBuffer} (hcoherent : buffer.Coherent) {rwnd : Nat}
    (hnames : (⟨id, buffer.baseIndex, buffer.receivedMask.sackMask buffer.baseIndex, rwnd⟩ :
      SelectiveAck).Names index) : buffer.receivedMask.get index = true := by
  rcases hnames with hbelow | ⟨i, hi, hbit, rfl⟩
  · exact hcoherent.below_base index hbelow
  · have hbase : buffer.baseIndex ≤ 1024 := hcoherent.base_le.trans hcoherent.total_le
    rw [BitSet.getLsbD_sackMask _ _ _ hi] at hbit
    dsimp only
    rw [Nat.mod_eq_of_lt (by omega)]
    exact hbit

theorem receivedMask_addFragment {before after : FragmentBuffer} {complete : Bool}
    (hadd : before.addFragment index data = (.ok complete, after))
    (hother : before.receivedMask.get other = true) : after.receivedMask.get other = true := by
  simp only [FragmentBuffer.addFragment] at hadd
  split at hadd
  next => cases hadd
  next =>
    split at hadd
    next =>
      cases hadd
      exact hother
    next =>
      cases hadd
      exact BitSet.get_set_of_get _ hother

/-- The clock of the last activity plays no part in reassembly. -/
theorem discardsReassembler_touched (session : SequenceSession C) (time : Instant)
    (id : MessageId) (index total : Nat) (data : Bytes) (now : Instant) :
    { session with lastActivity := time }.discardsReassembler id index total data now =
      session.discardsReassembler id index total data now := by
  have hadmits : ∀ entry, ({ session with lastActivity := time }.adjustReservation entry).isNone =
      (session.adjustReservation entry).isNone :=
    SequenceSession.adjustReservation_isNone_congr rfl rfl rfl
  simp only [SequenceSession.discardsReassembler, hadmits]

/-! ### The sender moves -/

/-- A message whose fragments the receiver all has is complete. -/
theorem completed_of_hasFragment {wire replies : List Packet}
    (hintact : Intact sender receiver wire) (h : Acknowledged sender receiver replies)
    {envelope : Envelope} (hsent : sender.Sent id envelope)
    (hall : ∀ index < envelope.fragmentCount, receiver.HasFragment id index) :
    receiver.HasCompleted id := by
  by_contra hnot
  have hbuffered : ∀ index < envelope.fragmentCount, ∃ view,
      receiver.session.buffered id = some view ∧ view.2.2.receivedMask.get index = true := by
    intro index hindex
    rcases hall index hindex with hcompleted | hview
    · exact absurd hcompleted hnot
    · exact hview
  have hpos := (envelope.covered (hintact.numbered.size_le id envelope hsent)).2
  obtain ⟨view, hview, -⟩ := hbuffered 0 hpos
  obtain ⟨-, other, hother, -, htotal, hcoherent, -⟩ := hintact.buffered id view hview
  have hsame := hintact.numbered.unique id other envelope hother hsent
  subst hsame
  have hcomplete : view.2.2.isComplete = true := by
    rw [hcoherent.isComplete_iff, htotal]
    intro index hindex
    obtain ⟨view', hview', hget⟩ := hbuffered index hindex
    rw [hview, Option.some.injEq] at hview'
    exact hview' ▸ hget
  rw [h.incomplete id view hview] at hcomplete
  cases hcomplete

/-- The sender changes without acknowledging anything new. -/
theorem Acknowledged.of_sender {sender sender' receiver : Party C}
    (h : Acknowledged sender receiver replies)
    (hmono : ∀ id envelope, sender.Sent id envelope → sender'.Sent id envelope)
    (hout : ∀ id msg', sender'.session.outgoing.get id = some msg' →
      (∃ msg, sender.session.outgoing.get id = some msg ∧
        ∀ index, msg'.ackedBitset.get index = true → msg.ackedBitset.get index = true) ∨
      ((∀ envelope, ¬ sender.Sent id envelope) ∧ ∀ index, msg'.ackedBitset.get index = false))
    (hacked : ∀ id, sender'.HasAcked id → sender.HasAcked id) :
    Acknowledged sender' receiver replies where
  sound := by
    intro ack hack hcontains index hnames
    rw [AssocMap.contains_eq, Option.isSome_iff_exists] at hcontains
    obtain ⟨msg', hmsg'⟩ := hcontains
    rcases hout _ msg' hmsg' with ⟨msg, hmsg, -⟩ | ⟨hunsent, -⟩
    · exact h.sound ack hack (by rw [AssocMap.contains_eq, hmsg]; rfl) index hnames
    · obtain ⟨envelope, henvelope⟩ := h.known ack hack
      exact absurd henvelope (hunsent envelope)
  known := by
    intro ack hack
    obtain ⟨envelope, henvelope⟩ := h.known ack hack
    exact ⟨envelope, hmono _ _ henvelope⟩
  acked := by
    intro id msg' hmsg' index hindex
    rcases hout id msg' hmsg' with ⟨msg, hmsg, hbits⟩ | ⟨-, hclear⟩
    · exact h.acked id msg hmsg index (hbits index hindex)
    · rw [hclear index] at hindex
      cases hindex
  incomplete := h.incomplete
  recorded := h.recorded
  finished id hid := h.finished id (hacked id hid)

theorem acked_of_ackView {first second : SequenceSession C} (h : first.SameOutgoing second)
    {msg' : OutgoingMessage} (hget : first.outgoing.get id = some msg') :
    ∃ msg, second.outgoing.get id = some msg ∧
      ∀ index, msg'.ackedBitset.get index = true → msg.ackedBitset.get index = true := by
  have hview := h id
  rw [hget, Option.map_some] at hview
  obtain ⟨msg, hmsg, heq⟩ := Option.map_eq_some_iff.mp hview.symm
  have hbits : msg.ackedBitset = msg'.ackedBitset := congrArg (fun view => view.2.1) heq
  exact ⟨msg, hmsg, fun index hindex => hbits ▸ hindex⟩

theorem Acknowledged.sender_call {sender sender' receiver : Party C} {replies packets : List Packet}
    (hnumbered : Numbered sender) (h : Acknowledged sender receiver replies)
    (houtcome : Party.CallOutcome sender action sender' packets) :
    Acknowledged sender' receiver replies := by
  cases houtcome with
  | sent messageType data now =>
      have hsend := sender.session.sendMessageAt_outcome messageType data now hnumbered.next_absent
      refine h.of_sender (fun id envelope hsent => List.mem_append_left _ hsent)
        (fun id msg' hmsg' => ?_) fun id hid => hid
      generalize sender.session.sendMessageAt messageType data now = outcome at hsend hmsg'
      obtain ⟨result, session⟩ := outcome
      cases hsend with
      | full | tooLarge => exact .inl ⟨msg', hmsg', fun _ hbit => hbit⟩
      | queued msg scheduler hsize hcontent hcounted hunacked =>
          simp only [AssocMap.get_insert] at hmsg'
          split at hmsg'
          next heq =>
            cases hmsg'
            exact .inr ⟨fun envelope => heq ▸ hnumbered.next_not_sent envelope, hunacked⟩
          next => exact .inl ⟨msg', hmsg', fun _ hbit => hbit⟩
  | transmitted action session' packets hnext hview hout hpackets =>
      exact h.of_sender (fun _ _ hsent => hsent)
        (fun id msg' hmsg' => .inl (acked_of_ackView hout hmsg')) fun id hid => hid
  | cleaned now =>
      obtain ⟨-, hout, -⟩ := sender.session.cleanup_spec now
      refine h.of_sender (fun _ _ hsent => hsent) (fun id msg' hmsg' => .inl ?_) fun id hid => hid
      have hfiltered := (hout id).symm.trans hmsg'
      rw [Option.filter_eq_some_iff] at hfiltered
      exact ⟨msg', hfiltered.1, fun _ hbit => hbit⟩

/-! ### The receiver moves -/

/-- The receiver changes and sends packets: what was acknowledged stays, and the
new acknowledgements are sound. -/
theorem Acknowledged.of_receiver {sender receiver receiver' : Party C}
    {replies packets : List Packet} (h : Acknowledged sender receiver replies)
    (hkeeps : ∀ ack, Packet.ack ack ∈ replies →
      sender.session.outgoing.contains ack.messageId = true → ∀ index, ack.Names index →
      receiver.HasFragment ack.messageId index → receiver'.HasFragment ack.messageId index)
    (hnew : ∀ ack, Packet.ack ack ∈ packets → (∃ envelope, sender.Sent ack.messageId envelope) ∧
      ∀ index, ack.Names index → receiver'.HasFragment ack.messageId index)
    (hincomplete : ∀ id view, receiver'.session.buffered id = some view →
      view.2.2.isComplete = false)
    (hrecorded : ∀ id entry, receiver'.session.completedIncoming.get id = some entry →
      receiver'.HasCompleted id ∧ entry.1.messageId = id)
    (hcompleted : ∀ id, receiver.HasCompleted id → receiver'.HasCompleted id) :
    Acknowledged sender receiver' (replies ++ packets) where
  sound := by
    intro ack hack hcontains index hnames
    rcases List.mem_append.mp hack with hold | hnewAck
    · exact hkeeps ack hold hcontains index hnames (h.sound ack hold hcontains index hnames)
    · exact (hnew ack hnewAck).2 index hnames
  known := by
    intro ack hack
    rcases List.mem_append.mp hack with hold | hnewAck
    · exact h.known ack hold
    · exact (hnew ack hnewAck).1
  acked := by
    intro id msg hmsg index hindex
    obtain ⟨ack, hack, hrest⟩ := h.acked id msg hmsg index hindex
    exact ⟨ack, List.mem_append_left _ hack, hrest⟩
  incomplete := hincomplete
  recorded := hrecorded
  finished id hid := hcompleted id (h.finished id hid)

theorem hasFragment_congr (hbuffered : ∀ id, party'.session.buffered id = party.session.buffered id)
    (hevents : party'.dataEvents = party.dataEvents) (id : MessageId) (index : Nat) :
    party'.HasFragment id index ↔ party.HasFragment id index := by
  simp only [Party.HasFragment, Party.HasCompleted, hbuffered, hevents]

/-- The receiving side is unchanged; new acknowledgements come from what it has. -/
theorem Acknowledged.of_receiverView {sender receiver receiver' : Party C}
    {replies packets : List Packet} (h : Acknowledged sender receiver replies)
    (hview : receiver'.session.receiverView = receiver.session.receiverView)
    (hevents : receiver'.dataEvents = receiver.dataEvents)
    (hnew : ∀ ack, Packet.ack ack ∈ packets → (∃ envelope, sender.Sent ack.messageId envelope) ∧
      ∀ index, ack.Names index → receiver.HasFragment ack.messageId index) :
    Acknowledged sender receiver' (replies ++ packets) := by
  have hbuffered := buffered_congr hview
  have hfragment := hasFragment_congr hbuffered hevents
  have hrecord : receiver'.session.completedIncoming = receiver.session.completedIncoming :=
    congrArg (fun view => view.2.1) hview
  have hcompleted : ∀ id, receiver.HasCompleted id → receiver'.HasCompleted id := by
    intro id hid
    rw [Party.HasCompleted, hevents]
    exact hid
  refine h.of_receiver (fun ack _ _ index _ hold => (hfragment _ index).mpr hold) ?_ ?_ ?_ hcompleted
  · intro ack hack
    exact ⟨(hnew ack hack).1, fun index hnames => (hfragment _ index).mpr
      ((hnew ack hack).2 index hnames)⟩
  · intro id view hid
    exact h.incomplete id view ((hbuffered id).symm.trans hid)
  · intro id entry hentry
    rw [hrecord] at hentry
    exact ⟨hcompleted id (h.recorded id entry hentry).1, (h.recorded id entry hentry).2⟩

variable {ack : SelectiveAck} {extra : List SessionEvent}

/-- The acknowledgements a receiver owes are sound. -/
theorem Acknowledged.owedAck {wire replies : List Packet} (hintact : Intact sender receiver wire)
    (h : Acknowledged sender receiver replies) (hentitled : receiver.session.Entitled (.ack ack)) :
    (∃ envelope, sender.Sent ack.messageId envelope) ∧
      ∀ index, ack.Names index → receiver.HasFragment ack.messageId index := by
  obtain ⟨rwnd, id, howed⟩ := hentitled
  simp only [FlushState.owedAck] at howed
  split at howed
  next entry hentry =>
    cases howed
    have hbuffered : receiver.session.buffered id = some entry.view := by
      rw [SequenceSession.buffered, hentry]
      rfl
    obtain ⟨hid, envelope, hsent, -, -, hcoherent, -⟩ := hintact.buffered id _ hbuffered
    simp only [MessageReassembler.view] at hid
    refine ⟨⟨envelope, ?_⟩, fun index hnames => .inr ⟨entry.view, ?_,
      names_received hcoherent hnames⟩⟩
    · simpa [MessageReassembler.createAck, hid] using hsent
    · simpa [MessageReassembler.createAck, hid] using hbuffered
  next =>
    obtain ⟨entry, hentry, rfl⟩ := Option.map_eq_some_iff.mp howed
    obtain ⟨hcompleted, hid⟩ := h.recorded id entry hentry
    dsimp only
    rw [hid]
    obtain ⟨messageType, payload, hevent⟩ := hcompleted
    exact ⟨⟨_, hintact.completed id messageType payload hevent⟩,
      fun index _ => .inl ⟨messageType, payload, hevent⟩⟩

/-- A harmless loss takes away nothing that an acknowledgement names. -/
theorem HarmlessLoss.not_names {sender : Party C} (h : HarmlessLoss sender replies id)
    (hack : Packet.ack ack ∈ replies) (hid : ack.messageId = id)
    (hcontains : sender.session.outgoing.contains id = true) (index : Nat) : ¬ ack.Names index := by
  rcases h with habsent | hnothing
  · rw [habsent] at hcontains
    cases hcontains
  · obtain ⟨hbase, hmask⟩ := hnothing ack hack hid
    simp [SelectiveAck.Names, hbase, hmask]

theorem Acknowledged.receiver_cleanup (h : Acknowledged sender receiver replies) (now : Instant)
    (hloss : ∀ id entry, receiver.session.incoming.get id = some entry →
      SequenceSession.reassemblyExpired now entry = true → HarmlessLoss sender replies id) :
    Acknowledged sender (receiver.withSession (receiver.session.cleanup now)) replies := by
  obtain ⟨-, -, hincoming, hcompleted, -⟩ := receiver.session.cleanup_spec now
  have hkept : ∀ id view, (receiver.session.cleanup now).buffered id = some view →
      receiver.session.buffered id = some view := by
    intro id view hview
    obtain ⟨entry, hentry, rfl⟩ := Option.map_eq_some_iff.mp hview
    rw [hincoming id, Option.filter_eq_some_iff] at hentry
    rw [SequenceSession.buffered, hentry.1]
    rfl
  rw [← List.append_nil replies]
  refine h.of_receiver ?_ (by simp) (fun id view hview => h.incomplete id view
    (hkept id view hview))
    (fun id entry hentry => ?_) fun id hid => hid
  · intro ack hack hcontains index hnames hfragment
    rcases hfragment with hdone | ⟨view, hview, hget⟩
    · exact .inl hdone
    · obtain ⟨entry, hentry, rfl⟩ := Option.map_eq_some_iff.mp hview
      by_cases hexpired : SequenceSession.reassemblyExpired now entry = true
      · have hharmless := hloss _ entry hentry hexpired
        exact absurd hnames (hharmless.not_names hack rfl hcontains index)
      · refine .inr ⟨entry.view, ?_, hget⟩
        rw [Party.withSession, SequenceSession.buffered, hincoming, hentry]
        simp [hexpired]
  · rw [Party.withSession, hcompleted id, Option.filter_eq_some_iff] at hentry
    exact h.recorded id entry hentry.1

theorem Acknowledged.receiver_call {sender receiver receiver' : Party C}
    {wire replies packets : List Packet} (hintact : Intact sender receiver wire)
    (h : Acknowledged sender receiver replies)
    (houtcome : Party.CallOutcome receiver action receiver' packets)
    (hloss : ∀ now, action = .cleanup now → ∀ id entry,
      receiver.session.incoming.get id = some entry →
      SequenceSession.reassemblyExpired now entry = true → HarmlessLoss sender replies id) :
    Acknowledged sender receiver' (replies ++ packets) := by
  cases houtcome with
  | sent messageType data now =>
      exact h.of_receiverView (receiverView_sendMessageAt _ messageType data now) rfl (by simp)
  | transmitted action session' packets hnext hview hout hpackets =>
      exact h.of_receiverView hview rfl fun ack hack => h.owedAck hintact (hpackets _ hack)
  | cleaned now =>
      rw [List.append_nil]
      exact h.receiver_cleanup now (hloss now rfl)

/-- A record of completions holds old entries and the new one. -/
theorem get_insertCompleted {completed : FlatMap MessageId (SelectiveAck × Instant)}
    {id other : MessageId} {entry : SelectiveAck × Instant}
    (hget : (SequenceSession.insertCompleted completed id ack now).get other = some entry) :
    (other = id ∧ entry = (ack, now)) ∨ completed.get other = some entry := by
  have hinsert : (completed.insert id (ack, now)).get other = some entry →
      (other = id ∧ entry = (ack, now)) ∨ completed.get other = some entry := by
    intro h
    rw [AssocMap.get_insert] at h
    split at h
    next heq =>
      cases h
      exact .inl ⟨heq, rfl⟩
    next => exact .inr h
  simp only [SequenceSession.insertCompleted] at hget
  split at hget
  next =>
    split at hget
    next oldest rest hkeys =>
      exact hinsert (AssocMap.get_of_erase hget).2
    next => exact hinsert hget
  next => exact hinsert hget

/-- A rejection acknowledges nothing. -/
theorem rejection_sound {receiver' : Party C} {packets : List Packet} {envelope : Envelope}
    (hsent : sender.Sent id envelope) (honly : SequenceSession.OnlyRejections id packets) :
    ∀ ack, Packet.ack ack ∈ packets → (∃ envelope, sender.Sent ack.messageId envelope) ∧
      ∀ index, ack.Names index → receiver'.HasFragment ack.messageId index := by
  intro ack hack
  obtain ⟨rwnd, heq⟩ := honly _ hack
  cases heq
  exact ⟨⟨envelope, hsent⟩, fun index hnames => absurd hnames (not_names_rejection id rwnd index)⟩

section Slice

/-! The receiver handles a slice of one message: of the others it holds what it
held, and what it completed stays completed. -/

variable {receiver' : Party C} {packets : List Packet} {envelope : Envelope}
variable (h : Acknowledged sender receiver replies)
  (hothers : ∀ other, other ≠ id →
    receiver'.session.buffered other = receiver.session.buffered other)
  (hdone : ∀ other, receiver.HasCompleted other → receiver'.HasCompleted other)
include h hothers hdone

theorem Acknowledged.slice
    (hkeeps : ∀ ack, Packet.ack ack ∈ replies →
      sender.session.outgoing.contains ack.messageId = true → ack.messageId = id →
      ∀ index, ack.Names index → ∀ view, receiver.session.buffered id = some view →
        view.2.2.receivedMask.get index = true → receiver'.HasFragment id index)
    (hnew : ∀ ack, Packet.ack ack ∈ packets → (∃ envelope, sender.Sent ack.messageId envelope) ∧
      ∀ index, ack.Names index → receiver'.HasFragment ack.messageId index)
    (hincomplete : ∀ view, receiver'.session.buffered id = some view → view.2.2.isComplete = false)
    (hrecorded : ∀ other entry, receiver'.session.completedIncoming.get other = some entry →
      (other = id ∧ receiver'.HasCompleted id ∧ entry.1.messageId = id) ∨
        receiver.session.completedIncoming.get other = some entry) :
    Acknowledged sender receiver' (replies ++ packets) := by
  refine h.of_receiver ?_ hnew ?_ ?_ hdone
  · intro ack hack hcontains index hnames hfragment
    rcases hfragment with hcomplete | ⟨view, hview, hget⟩
    · exact .inl (hdone _ hcomplete)
    · by_cases heq : ack.messageId = id
      · have hhas := hkeeps ack hack hcontains heq index hnames view (heq ▸ hview) hget
        exact heq ▸ hhas
      · exact .inr ⟨view, (hothers _ heq).trans hview, hget⟩
  · intro other view hview
    by_cases heq : other = id
    · exact hincomplete view (heq ▸ hview)
    · exact h.incomplete other view ((hothers other heq).symm.trans hview)
  · intro other entry hentry
    rcases hrecorded other entry hentry with ⟨rfl, hnow⟩ | hold
    · exact hnow
    · exact ⟨hdone other (h.recorded other entry hold).1, (h.recorded other entry hold).2⟩

/-- The reassembler stays as it was. -/
theorem Acknowledged.slice_unchanged
    (hself : receiver'.session.buffered id = receiver.session.buffered id)
    (hrecord : receiver'.session.completedIncoming = receiver.session.completedIncoming)
    (hnew : ∀ ack, Packet.ack ack ∈ packets → (∃ envelope, sender.Sent ack.messageId envelope) ∧
      ∀ index, ack.Names index → receiver'.HasFragment ack.messageId index) :
    Acknowledged sender receiver' (replies ++ packets) := by
  refine h.slice hothers hdone ?_ hnew ?_ fun other entry hentry => .inr (hrecord ▸ hentry)
  · intro ack _ _ _ index _ view hview hget
    exact .inr ⟨view, hself.trans hview, hget⟩
  · intro view hview
    exact h.incomplete id view (hself.symm.trans hview)

/-- The reassembler is dropped, and harmlessly if there was one. -/
theorem Acknowledged.slice_dropped (hsent : sender.Sent id envelope)
    (hnone : receiver'.session.buffered id = none)
    (hrecord : receiver'.session.completedIncoming = receiver.session.completedIncoming)
    (honly : SequenceSession.OnlyRejections id packets)
    (hloss : receiver.session.incoming.contains id = true → HarmlessLoss sender replies id) :
    Acknowledged sender receiver' (replies ++ packets) := by
  refine h.slice hothers hdone ?_ (rejection_sound hsent honly) (by simp [hnone])
    fun other entry hentry => .inr (hrecord ▸ hentry)
  intro ack hack hcontains heq index hnames view hview hget
  have hheld : receiver.session.incoming.contains id = true := by
    rw [← Bool.not_eq_false, ← SequenceSession.buffered_eq_none_iff, hview]
    simp
  exact absurd hnames ((hloss hheld).not_names hack heq (heq ▸ hcontains) index)

/-- The slice is added to the reassembler, which waits for more. -/
theorem Acknowledged.slice_kept {before after : FragmentBuffer} {messageId : MessageId}
    {highest : Option MessageId} (hopens : receiver.session.Opens id total messageId before highest)
    (hafter : before.addFragment index data = (.ok false, after))
    (hkept : receiver'.session.buffered id = some (messageId, total, after))
    (hrecord : receiver'.session.completedIncoming = receiver.session.completedIncoming) :
    Acknowledged sender receiver' (replies ++ []) := by
  refine h.slice hothers hdone ?_ (by simp) ?_ fun other entry hentry => .inr (hrecord ▸ hentry)
  · intro ack _ _ _ fragment _ view hview hget
    refine .inr ⟨_, hkept, ?_⟩
    rcases hopens with ⟨hheld, -⟩ | ⟨hnone, -⟩
    · rw [hheld] at hview
      cases hview
      exact receivedMask_addFragment hafter hget
    · rw [hnone] at hview
      cases hview
  · intro view hview
    rw [hkept] at hview
    cases hview
    exact SequenceSession.addFragment_isComplete hafter

/-- The slice completes the message, which leaves the reassembler for the record. -/
theorem Acknowledged.slice_delivered {record : SelectiveAck}
    (hnone : receiver'.session.buffered id = none) (hnow : receiver'.HasCompleted id)
    (hrecord : receiver'.session.completedIncoming =
      SequenceSession.insertCompleted receiver.session.completedIncoming id record now)
    (hid : record.messageId = id) : Acknowledged sender receiver' (replies ++ []) := by
  refine h.slice hothers hdone (fun ack _ _ _ index _ view _ _ => .inl hnow) (by simp)
    (by simp [hnone]) fun other entry hentry => ?_
  rw [hrecord] at hentry
  rcases get_insertCompleted hentry with ⟨heq, rfl⟩ | hold
  · exact .inl ⟨heq, hnow, hid⟩
  · exact .inr hold

end Slice

theorem hasCompleted_append {delivery : Delivery}
    (hdeliveries : party'.deliveries = party.deliveries ++ [delivery])
    (hid : party.HasCompleted id) : party'.HasCompleted id := by
  obtain ⟨messageType, payload, hevent⟩ := hid
  refine ⟨messageType, payload, ?_⟩
  simp only [Party.dataEvents, hdeliveries, List.flatMap_append] at hevent ⊢
  exact List.mem_append_left _ hevent

theorem hasAcked_append {events : List SessionEvent}
    (hdeliveries : party'.deliveries = party.deliveries ++ [⟨packet, events⟩])
    (hid : party'.HasAcked id) : party.HasAcked id ∨ SessionEvent.messageAcked id ∈ events := by
  obtain ⟨delivery, hdelivery, hevent⟩ := hid
  rw [hdeliveries, List.mem_append, List.mem_singleton] at hdelivery
  rcases hdelivery with hold | rfl
  · exact .inl ⟨delivery, hold, hevent⟩
  · exact .inr hevent

theorem not_acked_windowChange (hextra : Party.OnlyWindowChanges extra) (id : MessageId) :
    SessionEvent.messageAcked id ∉ extra := by
  intro hmem
  obtain ⟨cwnd, hcwnd⟩ := hextra _ hmem
  cases hcwnd

/-- A data packet reports no acknowledgement. -/
theorem not_acked_data {session session' : SequenceSession C}
    (h : SequenceSession.DataOutcome session id index total data now session' replies)
    (hextra : Party.OnlyWindowChanges extra) (other : MessageId) :
    SessionEvent.messageAcked other ∉ (session'.events ++ extra).drop session.events.length := by
  have hnew : ∃ new, session'.events = session.events ++ new ∧
      SessionEvent.messageAcked other ∉ new := by
    cases h with
    | resent entry rwnd hentry hsession hreplies => exact ⟨[], by simp [hsession], by simp⟩
    | refused hbuffered hcompleted hhighest hevents hreplies => exact ⟨[], by simp [hevents], by simp⟩
    | processed messageId before hfresh hrecent hopens hother heffect =>
        cases heffect with
        | dropped hbuffered hcompleted hevents hreplies hdiscards =>
            exact ⟨[], by simp [hevents], by simp⟩
        | kept after hafter hbuffered hcompleted hevents hreplies =>
            exact ⟨[], by simp [hevents], by simp⟩
        | delivered after rwnd hafter hbuffered hcompleted hevents hreplies =>
            refine ⟨_, hevents, ?_⟩
            simp only [SequenceSession.completionEvents]
            split <;> simp
  obtain ⟨new, hevents, hnot⟩ := hnew
  rw [hevents, List.append_assoc, List.drop_left, List.mem_append]
  rintro (hmem | hmem)
  · exact hnot hmem
  · exact not_acked_windowChange hextra other hmem

theorem acknowledged_new (config : Side → SessionConfig C) (sender : Side) :
    Acknowledged ((Network.new config).party sender) ((Network.new config).party sender.other)
      ((Network.new config).wire sender.other) where
  sound := by simp [Network.new]
  known := by simp [Network.new]
  acked := by simp [Network.new, Party.new, SequenceSession.new]
  incomplete := by simp [Network.new, Party.new, SequenceSession.new, SequenceSession.buffered]
  recorded := by simp [Network.new, Party.new, SequenceSession.new]
  finished := by simp [Network.new, Party.new, Party.HasAcked]

/-- The invariant of the direction from a sender, as long as it has ids left. -/
def Network.Reliable (sender : Side) (network : Network C) : Prop :=
  network.AllIntact ∧ ((network.party sender).takenIds < 2 ^ 32 →
    Acknowledged (network.party sender) (network.party sender.other) (network.wire sender.other))

section Steps

variable [FloatOps] [CongestionControl C]
variable {sender receiver : Party C} {wire replies : List Packet}

section

variable (hintact : Intact sender receiver wire) (h : Acknowledged sender receiver replies)
include hintact h

/-- The sender handles an acknowledgement that the receiver has sent. -/
theorem Acknowledged.sender_ack {ack : SelectiveAck} (hack : Packet.ack ack ∈ replies)
    (now : Instant) (systemMs jitter : Int) :
    Acknowledged (sender.receive (.ack ack) now systemMs jitter).1 receiver replies := by
  obtain ⟨-, middle, extra, houtcome, -, hout, -, hcalls, hdeliveries, hextra⟩ :=
    sender.receive_ack ack now systemMs jitter
  set sender' := (sender.receive (.ack ack) now systemMs jitter).1
  have hsent : ∀ id envelope, sender.Sent id envelope → sender'.Sent id envelope :=
    fun id envelope henvelope => by rw [Party.Sent, hcalls]; exact henvelope
  -- the messages the sender holds afterwards, and where their acknowledgements come from
  have hheld : ∀ id msg', sender'.session.outgoing.get id = some msg' →
      sender.session.outgoing.contains id = true ∧
      ∀ index, msg'.ackedBitset.get index = true →
        ∃ other, Packet.ack other ∈ replies ∧ other.messageId = id ∧ other.Names index := by
    intro id msg' hmsg'
    rw [hout] at hmsg'
    have hsame : sender.session.outgoing.get id = some msg' →
        sender.session.outgoing.contains id = true ∧
        ∀ index, msg'.ackedBitset.get index = true →
          ∃ other, Packet.ack other ∈ replies ∧ other.messageId = id ∧ other.Names index :=
      fun hget => ⟨by rw [AssocMap.contains_eq, hget]; rfl, h.acked id msg' hget⟩
    cases houtcome with
    | unknown hget hsameOut hevents => exact hsame (hsameOut ▸ hmsg')
    | acked msg hget hother hself hevents =>
        by_cases heq : id = ack.messageId
        · subst heq
          rw [hself] at hmsg'
          cases hmsg'
          obtain ⟨-, -, -, hcounted⟩ := hintact.numbered.outgoing _ msg hget
          obtain ⟨-, -, hbits⟩ := msg.onAck_spec ack now sender.session.deliveredBytes hcounted
          refine ⟨by rw [AssocMap.contains_eq, hget]; rfl, fun index hindex => ?_⟩
          rcases hbits index hindex with hold | hnames
          · exact h.acked _ msg hget index hold
          · exact ⟨ack, hack, rfl, hnames⟩
        · exact hsame ((hother id heq).symm.trans hmsg')
    | finished msg hget hall hother hself hevents =>
        by_cases heq : id = ack.messageId
        · subst heq
          rw [hself] at hmsg'
          cases hmsg'
        · exact hsame ((hother id heq).symm.trans hmsg')
  refine ⟨?_, ?_, fun id msg' hmsg' => (hheld id msg' hmsg').2, h.incomplete, h.recorded, ?_⟩
  · intro other hother hcontains index hnames
    rw [AssocMap.contains_eq, Option.isSome_iff_exists] at hcontains
    obtain ⟨msg', hmsg'⟩ := hcontains
    exact h.sound other hother (hheld _ msg' hmsg').1 index hnames
  · intro other hother
    obtain ⟨envelope, henvelope⟩ := h.known other hother
    exact ⟨envelope, hsent _ _ henvelope⟩
  · intro id hid
    rcases hasAcked_append hdeliveries hid with hold | hnew
    · exact h.finished id hold
    · -- the acknowledgement finished the message: every fragment is acknowledged
      cases houtcome with
      | unknown hget hsameOut hevents =>
          rw [hevents, List.drop_left] at hnew
          exact absurd hnew (not_acked_windowChange hextra id)
      | acked msg hget hother hself hevents =>
          rw [hevents, List.drop_left] at hnew
          exact absurd hnew (not_acked_windowChange hextra id)
      | finished msg hget hall hother hself hevents =>
          rw [hevents, List.append_assoc, List.drop_left, List.mem_append] at hnew
          rcases hnew with hnew | hnew
          · have hid' : id = ack.messageId := by simpa using hnew
            subst hid'
            obtain ⟨envelope, henvelope, hcontent, hcounted⟩ :=
              hintact.numbered.outgoing _ msg hget
            obtain ⟨hcontent', hcounted', hbits⟩ :=
              msg.onAck_spec ack now sender.session.deliveredBytes hcounted
            have hcount : (msg.onAck ack.baseIndex ack.bitmask now
                sender.session.deliveredBytes).2.numFragments = envelope.fragmentCount :=
              congrArg (fun content => content.2.2.2) (hcontent'.trans hcontent)
            have hcontains : sender.session.outgoing.contains ack.messageId = true := by
              rw [AssocMap.contains_eq, hget]
              rfl
            refine completed_of_hasFragment hintact h henvelope fun index hindex => ?_
            have hbit := hcounted'.all_acked hall index (hcount ▸ hindex)
            rcases hbits index hbit with hold | hnames
            · obtain ⟨other, hother, hsameId, hnames⟩ := h.acked _ msg hget index hold
              have hfragment := h.sound other hother (hsameId ▸ hcontains) index hnames
              exact hsameId ▸ hfragment
            · exact h.sound ack hack hcontains index hnames
          · exact absurd hnew (not_acked_windowChange hextra id)

theorem Acknowledged.sender_receive (hpacket : packet ∈ replies) (now : Instant)
    (systemMs jitter : Int) :
    Acknowledged (sender.receive packet now systemMs jitter).1 receiver replies := by
  have hcontrol : Party.IsControl packet →
      Acknowledged (sender.receive packet now systemMs jitter).1 receiver replies := by
    intro hcontrol
    obtain ⟨-, -, hout, -, -, events, hdeliveries, hevents⟩ :=
      sender.receive_control hcontrol now systemMs jitter
    refine h.of_sender (fun _ _ hsent => hsent)
      (fun id msg' hmsg' => .inl (acked_of_ackView hout hmsg')) fun id hid => ?_
    exact (hasAcked_append hdeliveries hid).resolve_right (hevents id)
  cases packet with
  | data id index total data =>
      obtain ⟨middle, extra, houtcome, -, hout, -, -, hdeliveries, hextra⟩ :=
        sender.receive_data id index total data now systemMs jitter
      refine h.of_sender (fun _ _ hsent => hsent)
        (fun other msg' hmsg' => .inl ⟨msg', hout ▸ hmsg', fun _ hbit => hbit⟩) fun other hid => ?_
      exact (hasAcked_append hdeliveries hid).resolve_right (not_acked_data houtcome hextra other)
  | ack ack => exact h.sender_ack hintact hpacket now systemMs jitter
  | nack | ping | pong | datagram => exact hcontrol trivial

/-- The receiver handles a slice of a message. -/
theorem Acknowledged.receiver_data (hslice : SliceOf sender.Sent (.data id index total data))
    (now : Instant) (systemMs jitter : Int)
    (hloss : receiver.session.discardsReassembler id index total data now = true →
      HarmlessLoss sender replies id) :
    Acknowledged sender (receiver.receive (.data id index total data) now systemMs jitter).1
      (replies ++ (receiver.receive (.data id index total data) now systemMs jitter).2) := by
  obtain ⟨envelope, hsent, rfl, rfl⟩ := hslice
  obtain ⟨middle, extra, houtcome, hview, -, -, -, hdeliveries, hextra⟩ :=
    receiver.receive_data id index envelope.fragmentCount (envelope.fragment index) now systemMs
      jitter
  set outcome := receiver.receive (.data id index envelope.fragmentCount
    (envelope.fragment index)) now systemMs jitter
  have hbuffered := buffered_congr hview
  have hrecord : outcome.1.session.completedIncoming = middle.completedIncoming :=
    congrArg (fun view => view.2.1) hview
  have hdone : ∀ other, receiver.HasCompleted other → outcome.1.HasCompleted other :=
    fun other hother => hasCompleted_append hdeliveries hother
  cases houtcome with
  | resent entry rwnd hentry hsession hreplies =>
      obtain ⟨hcompleted, hid⟩ := h.recorded id entry hentry
      subst hsession
      refine h.slice_unchanged (fun other _ => hbuffered other) hdone (hbuffered id) hrecord
        fun ack hack => ?_
      rw [hreplies, List.mem_singleton] at hack
      cases hack
      dsimp only
      rw [hid]
      exact ⟨⟨envelope, hsent⟩, fun _ _ => .inl (hdone id hcompleted)⟩
  | refused hsame hcompleted hhighest hevents hreplies =>
      have hkept := fun other => (hbuffered other).trans (hsame other)
      exact h.slice_unchanged (fun other _ => hkept other) hdone (hkept id)
        (hrecord.trans hcompleted) (rejection_sound hsent hreplies)
  | processed messageId before hfresh hrecent hopens hother heffect =>
      obtain ⟨hid, htotal, hcoherent, hholds⟩ := hintact.opens_holdsPart hsent hopens
      have hothers : ∀ other, other ≠ id →
          outcome.1.session.buffered other = receiver.session.buffered other :=
        fun other hne => (hbuffered other).trans (hother other hne)
      cases heffect with
      | dropped hnone hcompleted hevents hreplies hdiscards =>
          refine h.slice_dropped hothers hdone hsent ((hbuffered id).trans hnone)
            (hrecord.trans hcompleted) hreplies fun hheld => ?_
          have hlost := hdiscards hheld
          rw [discardsReassembler_touched] at hlost
          exact hloss hlost
      | kept after hafter hkept hcompleted hevents hreplies =>
          rw [hreplies]
          exact h.slice_kept hothers hdone hopens hafter ((hbuffered id).trans hkept)
            (hrecord.trans hcompleted)
      | delivered after rwnd hafter hnone hcompleted hevents hreplies =>
          obtain ⟨hcoherent', hholds', htotal'⟩ := addFragment_slice hcoherent hholds hafter
          have hcompletes := completionEvents_eq id (hintact.numbered.size_le id envelope hsent)
            hcoherent' hholds' (htotal'.trans htotal)
            (SequenceSession.addFragment_isComplete hafter)
          have hnow : outcome.1.HasCompleted id := by
            refine ⟨envelope.messageType, envelope.payload, ?_⟩
            rw [mem_dataEvents _ hdeliveries hevents hextra, hcompletes]
            exact .inr (List.mem_singleton.mpr rfl)
          rw [hreplies]
          exact h.slice_delivered hothers hdone ((hbuffered id).trans hnone) hnow
            (hrecord.trans hcompleted) hid

theorem Acknowledged.receiver_receive (hpacket : packet ∈ wire) (now : Instant)
    (systemMs jitter : Int)
    (hloss : ∀ id index total data, packet = .data id index total data →
      receiver.session.discardsReassembler id index total data now = true →
      HarmlessLoss sender replies id) :
    Acknowledged sender (receiver.receive packet now systemMs jitter).1
      (replies ++ (receiver.receive packet now systemMs jitter).2) := by
  have hcontrol : Party.IsControl packet →
      Acknowledged sender (receiver.receive packet now systemMs jitter).1
        (replies ++ (receiver.receive packet now systemMs jitter).2) := by
    intro hcontrol
    obtain ⟨hreplies, hview, -, -, -, events, hdeliveries, -⟩ :=
      receiver.receive_control hcontrol now systemMs jitter
    refine h.of_receiverView hview (dataEvents_append_other (fun id index total data heq => ?_)
      hdeliveries) fun ack hack => (hreplies _ hack).elim
    rw [heq] at hcontrol
    exact hcontrol
  cases packet with
  | data id index total data =>
      exact h.receiver_data hintact (hintact.slices _ hpacket) now systemMs jitter
        (hloss id index total data rfl)
  | ack ack =>
      obtain ⟨hreplies, middle, extra, -, hview, -, -, -, hdeliveries, -⟩ :=
        receiver.receive_ack ack now systemMs jitter
      exact h.of_receiverView hview (dataEvents_append_other (by simp) hdeliveries)
        (by simp [hreplies])
  | nack | ping | pong | datagram => exact hcontrol trivial

end

theorem Network.Reliable.step {network : Network C} {sender : Side} {command : Command}
    (h : network.Reliable sender) (hmeets : DiscardsHarmlessly sender network command) :
    (network.step command).Reliable sender := by
  refine ⟨h.1.step command, fun hbound => ?_⟩
  cases command with
  | call side action =>
      have houtcome := (network.party side).call_outcome action
      -- The party that acts is the sender or the receiver of the messages in question.
      by_cases hside : side = sender
      · subst hside
        simp only [Network.step, Network.party_put_self, Network.party_put_other,
          Network.wire_put_other] at hbound ⊢
        have hids := lt_of_le_of_lt (takenIds_le_of_call houtcome) hbound
        exact (h.2 hids).sender_call (h.1 side hids).numbered houtcome
      · have hreceiver : side = sender.other := by
          cases side <;> cases sender <;> simp_all [Side.other]
        subst hreceiver
        have hparty := network.party_put_other sender.other
          ((network.party sender.other).call action)
        rw [Side.other_other] at hparty
        simp only [Network.step, hparty, Network.party_put_self, Network.wire_put_self] at hbound ⊢
        refine (h.2 hbound).receiver_call (h.1 sender hbound) houtcome ?_
        rintro now rfl id entry hentry hexpired
        exact hmeets rfl id entry hentry hexpired
  | deliver side index now systemMs jitter =>
      simp only [Network.step] at hbound ⊢
      split
      next hnone =>
        simp only [hnone] at hbound
        exact h.2 hbound
      next packet hpacket =>
        simp only [hpacket] at hbound
        have hmem := List.mem_of_getElem? hpacket
        by_cases hside : side = sender
        · subst hside
          simp only [Network.party_put_self, Network.party_put_other, Network.wire_put_other,
            takenIds_receive] at hbound ⊢
          exact (h.2 hbound).sender_receive (h.1 side hbound) hmem now systemMs jitter
        · have hreceiver : side = sender.other := by
            cases side <;> cases sender <;> simp_all [Side.other]
          subst hreceiver
          have hparty := network.party_put_other sender.other
            ((network.party sender.other).receive packet now systemMs jitter)
          rw [Side.other_other] at hparty hmem
          simp only [hparty, Network.party_put_self, Network.wire_put_self] at hbound ⊢
          refine (h.2 hbound).receiver_receive (h.1 sender hbound) hmem now systemMs jitter ?_
          rintro id fragment total data rfl hdiscards
          exact hmeets rfl id fragment total data hpacket hdiscards

/-- Reliable delivery, in every state of every run in which reassemblers are only
discarded harmlessly and the sender has taken fewer than `2 ^ 32` ids: what the
sender reports as acknowledged, the receiver has completed. -/
theorem acked_was_completed (config : Side → SessionConfig C) (sender : Side)
    (commands : List Command)
    (hmeets : RunMeets Network.step (DiscardsHarmlessly sender) (Network.new config) commands)
    (hids : ((Network.run config commands).party sender).takenIds < 2 ^ 32) (id : MessageId)
    (hacked : ((Network.run config commands).party sender).HasAcked id) :
    ((Network.run config commands).party sender.other).HasCompleted id := by
  have hreliable := hmeets.invariant (fun network : Network C => network.Reliable sender)
    (fun network command h hok => h.step hok)
      ⟨allIntact_new config, fun _ => acknowledged_new config sender⟩
  exact (hreliable.2 hids).finished id hacked

end Steps

/-- A message of two fragments, the second one lost at first; a short message
follows. The receiver acknowledges the first fragment, discards it after 31
seconds, then receives and acknowledges the second one. -/
def splitAcknowledgement : List Command :=
  [.call .left (.sendMessage .merkleNode (List.replicate 1400 0) 0),
    .call .left (.sendMessage .merkleNode [4] 0), .call .left (.flush 0 0 []),
    .deliver .right 1 1000 0 0, .deliver .right 2 2000 0 0,
    .call .right (.flush (fromMillis 50 : Nat) 50 []),
    .deliver .left 1 (fromSecs 10 : Nat) 0 0,
    .call .left (.cleanup (fromSecs 31 : Nat)), .call .right (.cleanup (fromSecs 31 : Nat)),
    .deliver .right 3 (fromSecs 31 : Nat) 0 0,
    .call .right (.flush (fromSecs 32 : Nat) 32000 []),
    .deliver .left 4 (fromSecs 32 : Nat) 0 0]

/-- The sender reports the message as acknowledged, and the receiver never held
all of it. -/
theorem acked_not_completed :
    ((referenceRun splitAcknowledgement).party .left).HasAcked 5 ∧
      ¬ ((referenceRun splitAcknowledgement).party .right).HasCompleted 5 := by
  constructor
  · unfold Party.HasAcked
    decide +kernel
  · rintro ⟨messageType, payload, hevent⟩
    have hevents : ((referenceRun splitAcknowledgement).party .right).dataEvents =
        [.congestionWindowChanged 10, .messageCompleted 6 .merkleNode [4]] := by
      decide +kernel
    rw [hevents] at hevent
    simp at hevent

/-- A message of one fragment, delivered and acknowledged. -/
def acknowledgedExchange : List Command :=
  [.call .left (.sendMessage .merkleNode [1, 2, 3] 0), .call .left (.flush 0 0 []),
    .deliver .right 1 1000 0 0, .call .right (.flush 2000 0 []), .deliver .left 1 3000 0 0]

theorem acked_was_completed_exchange :
    ((referenceRun acknowledgedExchange).party .right).HasCompleted 5 := by
  refine @acked_was_completed FixedWindow exactFloatOps _ referenceConfig .left
    acknowledgedExchange ⟨trivial, trivial, ?_, trivial, ?_, trivial⟩ (by decide +kernel) 5 ?_
  · intro _ id fragment total data hpacket hdiscards
    have hwire : ((referenceRun (acknowledgedExchange.take 2)).wire .left)[1]? =
        some (.data 5 0 1 [0x92, 0x05, 0xc4, 3, 1, 2, 3]) := by
      decide +kernel
    have hsome := hwire.symm.trans hpacket
    cases hsome
    have hkeeps : ((referenceRun (acknowledgedExchange.take 2)).party
        .right).session.discardsReassembler 5 0 1 [0x92, 0x05, 0xc4, 3, 1, 2, 3] 1000 = false := by
      decide +kernel
    exact absurd (hkeeps.symm.trans hdiscards) (by decide)
  · intro hside
    cases hside
  · unfold Party.HasAcked
    decide +kernel

end MerkleTox.Sequenced
