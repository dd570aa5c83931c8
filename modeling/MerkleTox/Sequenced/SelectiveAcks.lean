import MerkleTox.Sequenced.Fragments

/-! # Selective acknowledgements

The receiver turns the set of received fragments into a base index and a mask, word by
word; the sender reads both back bit by bit. The main theorem,
`OutgoingMessage.mem_collectAckedIndices_iff`, says that nothing is lost or invented on
the way: the sender collects, of the fragments it does not know to be acknowledged,
those received below the base index and in the 64 positions behind it.

The sender starts its search at the highest base index it has seen. That loses nothing
because all fragments below that index are acknowledged, in every state that the
operations of the session can bring a message to.
-/

namespace MerkleTox.Sequenced

open Proto

/-! ### The receiver -/

namespace MessageReassembler

/-- The fragments a reassembler is given, in any order and any number of times. -/
def receiveAll (reassembler : MessageReassembler) (fragments : List (Nat × Bytes × Instant)) :
    MessageReassembler :=
  fragments.foldl (fun received fragment =>
    (received.addFragment fragment.1 fragment.2.1 fragment.2.2).2) reassembler

/-- A buffer with the fragment count of its reassembler, and all its facts. -/
def Coherent (reassembler : MessageReassembler) : Prop :=
  reassembler.buffer.Coherent ∧ reassembler.buffer.totalFragments = reassembler.totalFragments

variable {reassembler : MessageReassembler}

theorem coherent_new {messageId : MessageId} {total reserved : Nat} {priority : Priority}
    {now : Instant} (hnew : new messageId total priority reserved now = .ok reassembler) :
    reassembler.Coherent ∧ reassembler.totalFragments = total := by
  unfold new at hnew
  split at hnew
  next => cases hnew
  next hrange =>
    cases hnew
    rw [not_or, Nat.not_lt] at hrange
    exact ⟨⟨FragmentBuffer.coherent_new hrange.2, rfl⟩, rfl⟩

theorem Coherent.addFragment (h : reassembler.Coherent) (index : Nat) (data : Bytes)
    (now : Instant) :
    (reassembler.addFragment index data now).2.Coherent ∧
      (reassembler.addFragment index data now).2.totalFragments = reassembler.totalFragments := by
  obtain ⟨hbuffer, htotal⟩ := h
  simp only [MessageReassembler.addFragment, FragmentBuffer.addFragment]
  split
  next => exact ⟨⟨hbuffer, htotal⟩, rfl⟩
  next =>
    split
    next => exact ⟨⟨hbuffer, htotal⟩, rfl⟩
    next hindex =>
      split
      next => exact ⟨⟨hbuffer, htotal⟩, rfl⟩
      next hget =>
        have hclear := Bool.eq_false_of_not_eq_true hget
        exact ⟨⟨hbuffer.store data (Nat.not_le.mp hindex) hclear, htotal⟩, rfl⟩

theorem Coherent.receiveAll (h : reassembler.Coherent) (fragments : List (Nat × Bytes × Instant)) :
    (reassembler.receiveAll fragments).Coherent ∧
      (reassembler.receiveAll fragments).totalFragments = reassembler.totalFragments := by
  induction fragments generalizing reassembler with
  | nil => exact ⟨h, rfl⟩
  | cons fragment rest ih =>
      obtain ⟨hadded, htotal⟩ := h.addFragment fragment.1 fragment.2.1 fragment.2.2
      obtain ⟨hrest, htotal'⟩ := ih hadded
      exact ⟨hrest, htotal'.trans htotal⟩

theorem Coherent.isReceived_iff (h : reassembler.Coherent) (index : Nat) :
    reassembler.isReceived index = true ↔ reassembler.buffer.receivedMask.get index = true := by
  obtain ⟨hbuffer, htotal⟩ := h
  unfold isReceived
  split
  next hout =>
    -- nothing is received behind the last fragment
    refine ⟨nofun, fun hget => ?_⟩
    obtain ⟨data, hdata⟩ := (hbuffer.mask_iff index).mp hget
    have hlt := (List.getElem?_eq_some_iff.mp hdata).1
    rw [hbuffer.length_fragments, htotal] at hlt
    omega
  next => exact Iff.rfl

/-- Everything below the base index of an acknowledgement has arrived. -/
theorem Coherent.received_below (h : reassembler.Coherent) {index : Nat}
    (hindex : index < reassembler.buffer.baseIndex) : reassembler.isReceived index = true :=
  (h.isReceived_iff index).mpr (h.1.below_base index hindex)

end MessageReassembler

/-! ### The states of a message being sent -/

namespace AckWork

variable [FloatOps] (work : AckWork)

theorem ackedBitset_processSingleAck (idx : Nat) (now : Instant) (total : Nat) :
    (work.processSingleAck idx now total).2.msg.ackedBitset =
      if work.msg.numFragments ≤ idx then work.msg.ackedBitset
      else (work.msg.ackedBitset.set idx).2 := by
  simp only [processSingleAck]
  split
  next => rfl
  next =>
    split
    next => split <;> simp [msg_recordDelivery]
    next => rfl

theorem cumulative_processSingleAck (idx : Nat) (now : Instant) (total : Nat) :
    (work.processSingleAck idx now total).2.msg.highestCumulativeAck =
      work.msg.highestCumulativeAck := by
  simp only [processSingleAck]
  split
  next => rfl
  next =>
    split
    next => split <;> simp [msg_recordDelivery]
    next => rfl

/-- The loop over the acknowledged indices acknowledges those that are fragments. -/
theorem get_processAcks (now : Instant) (total : Nat) (indices : List Nat) (work : AckWork)
    (hcounted : work.msg.AcksCounted) (idx : Nat) :
    (processAcks now total indices work).2.msg.ackedBitset.get idx =
      (work.msg.ackedBitset.get idx ||
        (decide (idx ∈ indices) && decide (idx < work.msg.numFragments))) := by
  induction indices generalizing work with
  | nil => simp [processAcks]
  | cons first rest ih =>
      obtain ⟨hcontent, hcounted', -⟩ := work.processSingleAck_spec first now total hcounted
      have hnum : (work.processSingleAck first now total).2.msg.numFragments =
          work.msg.numFragments := congrArg (fun content => content.2.2.2) hcontent
      simp only [processAcks]
      rw [ih _ hcounted', hnum, ackedBitset_processSingleAck]
      have hcapacity : work.msg.numFragments ≤ bitsetWords * 64 := hcounted.num_le
      split
      next hout =>
        by_cases heq : idx = first
        · subst heq
          simp [Nat.not_lt.mpr hout]
        · simp [heq]
      next hin =>
        rw [BitSet.get_set]
        by_cases heq : idx = first
        · subst heq
          have hlt : idx < bitsetWords * 64 := by omega
          simp [hlt, Nat.not_le.mp hin]
        · simp [heq]

theorem cumulative_processAcks (now : Instant) (total : Nat) (indices : List Nat) (work : AckWork) :
    (processAcks now total indices work).2.msg.highestCumulativeAck =
      work.msg.highestCumulativeAck := by
  induction indices generalizing work with
  | nil => rfl
  | cons first rest ih =>
      simp only [processAcks]
      rw [ih, cumulative_processSingleAck]

omit [FloatOps]

theorem cumulative_triggerLoss (idx : Nat) :
    (work.triggerLoss idx).msg.highestCumulativeAck = work.msg.highestCumulativeAck := by
  simp only [triggerLoss]
  split
  next => rw [msg_markForRemoval]
  next => rfl

theorem cumulative_handleFastRetransmit (baseIndex : Nat) :
    (work.handleFastRetransmit baseIndex).msg.highestCumulativeAck =
      work.msg.highestCumulativeAck := by
  simp only [handleFastRetransmit]
  split
  next =>
    split
    next => rw [cumulative_triggerLoss]
    next => rfl
  next => rfl

theorem cumulative_detectLossesFromHoles :
    work.detectLossesFromHoles.msg.highestCumulativeAck = work.msg.highestCumulativeAck := by
  refine work.detectLossesFromHoles_keeps
    (fun after => after.msg.highestCumulativeAck = work.msg.highestCumulativeAck) rfl ?_
  intro maxSent ackedCount acc idx hacc
  simp only [detectLossAt]
  split
  next => exact hacc
  next =>
    split
    next => exact (cumulative_triggerLoss _ _).trans hacc
    next => exact hacc

end AckWork

namespace OutgoingMessage

theorem cumulative_finishAck (work : AckWork) (anyNewlyAcked : Bool) :
    (finishAck work anyNewlyAcked).2.highestCumulativeAck = work.msg.highestCumulativeAck := by
  rw [← AckWork.cumulative_detectLossesFromHoles work]
  simp only [finishAck]
  split <;> split <;> rfl

/-- The zeros from `curr` on are collected in the order of their indices. -/
theorem mem_zerosFrom_iff {acked : BitSet bitsetWords} {limit rounds curr idx : Nat}
    (hrounds : limit - curr ≤ rounds) :
    idx ∈ zerosFrom acked limit rounds curr ↔
      curr ≤ idx ∧ idx < limit ∧ acked.get idx = false := by
  induction rounds generalizing curr with
  | zero =>
      rw [zerosFrom]
      simp only [List.not_mem_nil, false_iff]
      omega
  | succ rounds ih =>
      unfold zerosFrom
      have hspec := acked.nextZero_spec curr limit
      cases hnext : acked.nextZero curr limit with
      | none =>
          rw [hnext] at hspec
          cases hspec with
          | none hall =>
              simp only [List.not_mem_nil, false_iff]
              rintro ⟨hcurr, hlimit, hclear⟩
              exact absurd (hclear.symm.trans (hall idx hcurr hlimit)) (by decide)
      | some found =>
          rw [hnext] at hspec
          cases hspec with
          | found hstart hlimit hclear hbefore =>
              rw [List.mem_cons, ih (by omega)]
              constructor
              · rintro (rfl | ⟨hlow, hhigh, hget⟩)
                · exact ⟨hstart, hlimit, hclear⟩
                · exact ⟨by omega, hhigh, hget⟩
              · rintro ⟨hlow, hhigh, hget⟩
                rcases Nat.lt_trichotomy idx found with hlt | heq | hgt
                · exact absurd (hget.symm.trans (hbefore idx hlow hlt)) (by decide)
                · exact .inl heq
                · exact .inr ⟨hgt, hhigh, hget⟩

theorem mem_collectAckedIndices (msg : OutgoingMessage) (baseIndex : Nat) (bitmask : BitVec 64)
    (idx : Nat) :
    idx ∈ (msg.collectAckedIndices baseIndex bitmask).1 ↔
      idx < msg.numFragments ∧ msg.ackedBitset.get idx = false ∧
        (msg.highestCumulativeAck ≤ idx ∧ idx < baseIndex ∨
          ∃ i < 64, bitmask.getLsbD i = true ∧ idx = (baseIndex + 1 + i) % 2 ^ 16) := by
  simp only [collectAckedIndices, List.mem_append, List.mem_filterMap, List.mem_filter,
    List.mem_range]
  rw [mem_zerosFrom_iff (Nat.sub_le _ _)]
  constructor
  · rintro (⟨hcumulative, hlimit, hclear⟩ | ⟨i, ⟨hi, hbit⟩, hsome⟩)
    · exact ⟨by omega, hclear, .inl ⟨hcumulative, by omega⟩⟩
    · split at hsome
      next hfresh =>
        rw [Option.some.injEq] at hsome
        rw [hsome] at hfresh
        exact ⟨hfresh.1, by simpa using hfresh.2, .inr ⟨i, hi, hbit, hsome.symm⟩⟩
      next => cases hsome
  · rintro ⟨hnum, hclear, ⟨hcumulative, hbase⟩ | ⟨i, hi, hbit, rfl⟩⟩
    · exact .inl ⟨hcumulative, by omega, hclear⟩
    · refine .inr ⟨i, ⟨hi, hbit⟩, ?_⟩
      rw [if_pos ⟨hnum, by rw [hclear]; rfl⟩]

/-- What the interpretation of the next acknowledgement depends on. -/
def ackRecord (msg : OutgoingMessage) := (msg.ackView, msg.highestCumulativeAck)

theorem ackRecord_onAck [FloatOps] {msg : OutgoingMessage} (hcounted : msg.AcksCounted)
    (baseIndex : Nat) (bitmask : BitVec 64) (now : Instant) (total : Nat) :
    (msg.onAck baseIndex bitmask now total).2.highestCumulativeAck =
        max msg.highestCumulativeAck baseIndex ∧
      ∀ idx, (msg.onAck baseIndex bitmask now total).2.ackedBitset.get idx =
        (msg.ackedBitset.get idx ||
          decide (idx ∈ (msg.collectAckedIndices baseIndex bitmask).1)) := by
  set touched : OutgoingMessage := { msg with lastAckAt := now } with htouched
  set collected := touched.collectAckedIndices baseIndex bitmask with hcollected
  set work : AckWork := ⟨collected.2, .new, false, ⟨0, 0, none, none, false, none⟩⟩ with hwork
  have hview : work.msg.ackView = msg.ackView := rfl
  -- everything behind the loop leaves the record alone
  have hrest : (msg.onAck baseIndex bitmask now total).2.ackRecord =
      (AckWork.processAcks now total collected.1 work).2.msg.ackRecord := by
    simp only [onAck, ← htouched, ← hcollected, ← hwork]
    generalize AckWork.processAcks now total collected.1 work = processed
    unfold ackRecord
    rw [ackView_finishAck, cumulative_finishAck]
    split
    next => rfl
    next =>
      split
      next =>
        exact congrArg₂ Prod.mk (AckWork.ackView_handleFastRetransmit _ _)
          (AckWork.cumulative_handleFastRetransmit _ _)
      next => rfl
  have hcumulative : (msg.onAck baseIndex bitmask now total).2.highestCumulativeAck =
      (AckWork.processAcks now total collected.1 work).2.msg.highestCumulativeAck :=
    congrArg Prod.snd hrest
  have hbits : (msg.onAck baseIndex bitmask now total).2.ackedBitset =
      (AckWork.processAcks now total collected.1 work).2.msg.ackedBitset :=
    congrArg (fun record => record.1.2.1) hrest
  refine ⟨?_, fun idx => ?_⟩
  · rw [hcumulative, AckWork.cumulative_processAcks]
    rfl
  · rw [hbits, AckWork.get_processAcks now total collected.1 work (hcounted.of_ackView_eq hview)]
    have hmem : idx ∈ collected.1 → idx < msg.numFragments := fun h =>
      ((touched.mem_collectAckedIndices baseIndex bitmask idx).mp h).1
    change (msg.ackedBitset.get idx || (decide (idx ∈ collected.1) &&
      decide (idx < msg.numFragments))) = (msg.ackedBitset.get idx || decide (idx ∈ collected.1))
    by_cases h : idx ∈ collected.1
    · simp [h, hmem h]
    · simp [h]

/-- The states that the operations of a session bring a message to. -/
inductive Reached [FloatOps] : OutgoingMessage → Prop
  | queued {messageType : MessageType} {data : Bytes} {payloadMtu : Nat} {now : Instant}
      {msg : OutgoingMessage} (hnew : OutgoingMessage.new messageType data payloadMtu now =
        .ok msg) :
      Reached msg
  | retimed {msg : OutgoingMessage} (timeout : Duration) (h : Reached msg) :
      Reached { msg with timeout := timeout }
  | sent {msg : OutgoingMessage} (idx : Nat) (now : Instant) (deliveredBytes : Nat)
      (lastDeliveryTime : Instant) (appLimited : Bool) (fragmentSize : Nat) (h : Reached msg) :
      Reached (msg.markFragmentSent idx now deliveredBytes lastDeliveryTime appLimited
        fragmentSize).2
  | retransmitted {msg : OutgoingMessage} (h : Reached msg) : Reached (FlushState.popRetransmit msg)
  | timedOut {msg : OutgoingMessage} (idx : Nat) (h : Reached msg) :
      Reached (FlushState.popInFlight idx msg)
  | advanced {msg : OutgoingMessage} (h : Reached msg) : Reached (FlushState.advanceNext msg)
  | nacked {work : SequenceSession.NackWork} (idx : Nat) (h : Reached work.msg) :
      Reached (SequenceSession.nackIndex work idx).msg
  | unqueued {msg : OutgoingMessage} (keep : Nat × Instant → Bool) (h : Reached msg) :
      Reached { msg with inFlightQueue := msg.inFlightQueue.filter keep }
  | acked {msg : OutgoingMessage} (baseIndex : Nat) (bitmask : BitVec 64) (now : Instant)
      (deliveredBytes : Nat) (h : Reached msg) :
      Reached (msg.onAck baseIndex bitmask now deliveredBytes).2

/-- Every fragment below the highest base index seen is acknowledged. -/
structure Cumulative (msg : OutgoingMessage) : Prop where
  counted : msg.AcksCounted
  below : ∀ idx < msg.highestCumulativeAck, idx < msg.numFragments →
    msg.ackedBitset.get idx = true

theorem Cumulative.of_ackRecord_eq {msg after : OutgoingMessage} (h : msg.Cumulative)
    (hrecord : after.ackRecord = msg.ackRecord) : after.Cumulative := by
  unfold ackRecord at hrecord
  rw [Prod.mk.injEq] at hrecord
  obtain ⟨hview, hcumulative⟩ := hrecord
  refine ⟨h.counted.of_ackView_eq hview, ?_⟩
  simp only [ackView, content, Prod.mk.injEq] at hview
  obtain ⟨⟨-, -, -, hnum⟩, hbits, -⟩ := hview
  rw [hcumulative, hnum, hbits]
  exact h.below

theorem Cumulative.onAck [FloatOps] {msg : OutgoingMessage} (h : msg.Cumulative) (baseIndex : Nat)
    (bitmask : BitVec 64) (now : Instant) (total : Nat) :
    (msg.onAck baseIndex bitmask now total).2.Cumulative := by
  obtain ⟨hcontent, hcounted, -⟩ := msg.onAck_spec ⟨0, baseIndex, bitmask, 0⟩ now total h.counted
  obtain ⟨hcumulative, hget⟩ := ackRecord_onAck h.counted baseIndex bitmask now total
  have hnum : (msg.onAck baseIndex bitmask now total).2.numFragments = msg.numFragments :=
    congrArg (fun content => content.2.2.2) hcontent
  refine ⟨hcounted, fun idx hidx hlt => ?_⟩
  rw [hnum] at hlt
  rw [hcumulative] at hidx
  rw [hget, Bool.or_eq_true, decide_eq_true_eq, mem_collectAckedIndices]
  by_cases hacked : msg.ackedBitset.get idx = true
  · exact .inl hacked
  · have hge : msg.highestCumulativeAck ≤ idx := by
      by_contra hlow
      exact hacked (h.below idx (Nat.not_le.mp hlow) hlt)
    exact .inr ⟨hlt, Bool.eq_false_of_not_eq_true hacked, .inl ⟨hge, by omega⟩⟩

theorem Reached.cumulative [FloatOps] {msg : OutgoingMessage} (h : msg.Reached) :
    msg.Cumulative := by
  induction h with
  | queued hnew =>
      refine ⟨(new_spec hnew).2.1, fun idx hidx => ?_⟩
      have hzero : ∀ {msg : OutgoingMessage} {messageType : MessageType} {data : Bytes}
          {payloadMtu : Nat} {now : Instant}, new messageType data payloadMtu now = .ok msg →
          msg.highestCumulativeAck = 0 := by
        intro msg messageType data payloadMtu now hnew
        simp only [new] at hnew
        split at hnew
        next => cases hnew
        next => cases hnew; rfl
      rw [hzero hnew] at hidx
      exact absurd hidx (Nat.not_lt_zero idx)
  | retimed timeout _ ih
  | sent idx now delivered lastDelivery appLimited size _ ih => exact ih.of_ackRecord_eq rfl
  | retransmitted _ ih =>
      refine ih.of_ackRecord_eq ?_
      unfold FlushState.popRetransmit
      split <;> rfl
  | timedOut idx _ ih | advanced _ ih => exact ih.of_ackRecord_eq rfl
  | nacked idx _ ih =>
      refine ih.of_ackRecord_eq ?_
      simp only [SequenceSession.nackIndex]
      split
      next => rfl
      next =>
        split
        next => split <;> rfl
        next => split <;> rfl
  | unqueued keep _ ih => exact ih.of_ackRecord_eq rfl
  | acked baseIndex bitmask now delivered _ ih => exact ih.onAck baseIndex bitmask now delivered

/-- Of the fragments that the sender does not know to be acknowledged, an acknowledgement
names exactly those received below its base index and in the 64 positions behind it. -/
theorem mem_collectAckedIndices_iff [FloatOps] {messageId : MessageId}
    {total reserved rwnd : Nat} {priority : Priority} {start : Instant}
    {fresh : MessageReassembler} {msg : OutgoingMessage}
    (hnew : MessageReassembler.new messageId total priority reserved start = .ok fresh)
    (hmsg : msg.Reached) (hnum : msg.numFragments = total)
    (fragments : List (Nat × Bytes × Instant)) (idx : Nat) :
    idx ∈ (msg.collectAckedIndices ((fresh.receiveAll fragments).createAck rwnd).baseIndex
        ((fresh.receiveAll fragments).createAck rwnd).bitmask).1 ↔
      msg.isAcked idx = false ∧ (fresh.receiveAll fragments).isReceived idx = true ∧
        (idx < (fresh.receiveAll fragments).buffer.baseIndex ∨
          (fresh.receiveAll fragments).buffer.baseIndex < idx ∧
            idx ≤ (fresh.receiveAll fragments).buffer.baseIndex + 64) := by
  obtain ⟨hfresh, htotal⟩ := MessageReassembler.coherent_new hnew
  obtain ⟨hcoherent, hsame⟩ := hfresh.receiveAll fragments
  generalize fresh.receiveAll fragments = received at hcoherent hsame
  have hbase : received.buffer.baseIndex ≤ msg.numFragments := by
    have hle := hcoherent.1.base_le
    rw [hcoherent.2, hsame, htotal] at hle
    rwa [hnum]
  have hmax : msg.numFragments ≤ 1024 := hmsg.cumulative.counted.num_le
  -- bit `i` of the mask is the fragment `i + 1` behind the base
  have hmask : (∃ i < 64, (received.createAck rwnd).bitmask.getLsbD i = true ∧
      idx = ((received.createAck rwnd).baseIndex + 1 + i) % 2 ^ 16) ↔
      received.isReceived idx = true ∧ received.buffer.baseIndex < idx ∧
        idx ≤ received.buffer.baseIndex + 64 := by
    have hbit : ∀ i < 64, (received.createAck rwnd).bitmask.getLsbD i =
        received.buffer.receivedMask.get (received.buffer.baseIndex + 1 + i) := fun i hi =>
      received.buffer.receivedMask.getLsbD_sackMask _ i hi
    rw [hcoherent.isReceived_iff]
    change (∃ i < 64, _ ∧ idx = (received.buffer.baseIndex + 1 + i) % 2 ^ 16) ↔ _
    constructor
    · rintro ⟨i, hi, hget, rfl⟩
      rw [hbit i hi] at hget
      rw [Nat.mod_eq_of_lt (by omega)]
      exact ⟨hget, by omega, by omega⟩
    · rintro ⟨hget, hlow, hhigh⟩
      refine ⟨idx - (received.buffer.baseIndex + 1), by omega, ?_, by omega⟩
      rw [hbit _ (by omega)]
      rwa [show received.buffer.baseIndex + 1 + (idx - (received.buffer.baseIndex + 1)) =
        idx by omega]
  rw [mem_collectAckedIndices, ← and_assoc, ← isAcked_eq_false, hmask]
  constructor
  · rintro ⟨hclear, ⟨-, hlow⟩ | ⟨hreceived, hhigh⟩⟩
    · exact ⟨hclear, hcoherent.received_below hlow, .inl hlow⟩
    · exact ⟨hclear, hreceived, .inr hhigh⟩
  · rintro ⟨hclear, hreceived, hlow | hhigh⟩
    · refine ⟨hclear, .inl ⟨?_, hlow⟩⟩
      by_contra hseen
      have hrange := isAcked_eq_false.mp hclear
      have hacked := hmsg.cumulative.below idx (Nat.not_le.mp hseen) hrange.1
      exact absurd (hrange.2.symm.trans hacked) nofun
    · exact ⟨hclear, .inr ⟨hreceived, hhigh⟩⟩

/-- Of three fragments the first and the last have arrived. -/
theorem mem_collectAckedIndices_hole : ∃ fresh msg,
    MessageReassembler.new 5 3 .standard 0 0 = .ok fresh ∧
      OutgoingMessage.new .merkleNode [7, 8, 9] 1 0 = .ok msg ∧
      ∀ idx, idx ∈ (msg.collectAckedIndices
        ((fresh.receiveAll [(2, [9], 1), (0, [7], 2)]).createAck 10).baseIndex
        ((fresh.receiveAll [(2, [9], 1), (0, [7], 2)]).createAck 10).bitmask).1 ↔
          msg.isAcked idx = false ∧
            (fresh.receiveAll [(2, [9], 1), (0, [7], 2)]).isReceived idx = true ∧
            (idx < 1 ∨ 1 < idx ∧ idx ≤ 65) := by
  refine ⟨_, _, rfl, rfl, fun idx => ?_⟩
  exact @mem_collectAckedIndices_iff exactFloatOps 5 3 0 10 .standard 0 _ _ rfl
    (@Reached.queued exactFloatOps .merkleNode [7, 8, 9] 1 0 _ rfl) rfl
    [(2, [9], 1), (0, [7], 2)] idx

end OutgoingMessage

end MerkleTox.Sequenced
