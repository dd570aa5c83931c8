import Mathlib.Algebra.Group.Action.Defs
import Mathlib.Algebra.Order.BigOperators.Group.Finset
import Mathlib.Order.Interval.Finset.Nat
import MerkleTox.Sequenced.Outgoing

/-! # Reassembly in any order

A fresh buffer is given fragments of one message, in any order and with repetitions. What it
keeps depends on the set of fragments seen alone.
-/

namespace MerkleTox.Sequenced

open Proto

namespace FragmentBuffer

/-- What a buffer shows of the fragments that it has seen. -/
structure Shows (buffer : FragmentBuffer) (total : Nat) (fragment : Nat → Bytes)
    (seen : Finset Nat) : Prop where
  received : ∀ index, buffer.receivedMask.get index = true ↔ index ∈ seen
  receivedCount : buffer.receivedCount = seen.card
  baseIndex : IsLeast {index | index ∉ seen} buffer.baseIndex
  currentSize : buffer.currentSize = ∑ index ∈ seen, (fragment index).length
  planned : buffer.totalAllocatedSize ≤ buffer.plannedTotalSize
  complete : buffer.isComplete = true ↔ seen = Finset.range total
  assembled : seen = Finset.range total →
    buffer.assemble = some ((List.range total).map fragment).flatten

/-- The fragments seen are stored, and everything else about the buffer follows them. -/
structure Follows (buffer : FragmentBuffer) (total : Nat) (fragment : Nat → Bytes)
    (seen : Finset Nat) : Prop where
  coherent : buffer.Coherent
  holds : buffer.HoldsOnly fragment
  total_eq : buffer.totalFragments = total
  received : ∀ index, buffer.receivedMask.get index = true ↔ index ∈ seen
  within : ∀ index ∈ seen, index < total
  count : buffer.receivedCount = seen.card
  size : buffer.currentSize = ∑ index ∈ seen, (fragment index).length
  gap : buffer.baseIndex ∉ seen

theorem advanceBase_gap {mask : BitSet bitsetWords} {total base : Nat} (hbase : base ≤ total)
    (hout : ∀ index, total ≤ index → mask.get index = false) :
    mask.get (advanceBase mask total base) = false := by
  unfold advanceBase
  generalize hrounds : total - base = rounds
  induction rounds generalizing base with
  | zero =>
      rw [advanceBase.go]
      exact hout base (by omega)
  | succ rounds ih =>
      unfold advanceBase.go
      split
      next h => exact ih h.1 (by omega)
      next h =>
        rw [not_and, Bool.not_eq_true] at h
        exact h (by omega)

variable {buffer : FragmentBuffer} {total : Nat} {fragment : Nat → Bytes} {seen : Finset Nat}

theorem follows_new (fragment : Nat → Bytes) (htotal : total ≤ maxFragmentsPerMessage) :
    (new total).Follows total fragment ∅ := by
  refine ⟨coherent_new htotal, holdsOnly_new total fragment, rfl, fun index => ?_, nofun, rfl, rfl,
    Finset.notMem_empty _⟩
  exact iff_of_false (by simp [new]) (Finset.notMem_empty index)

theorem Follows.store (h : buffer.Follows total fragment seen) {index : Nat}
    (hindex : index < total) (hfresh : index ∉ seen) :
    (buffer.store index (fragment index)).Follows total fragment (insert index seen) := by
  have hget : buffer.receivedMask.get index = false := by
    rw [← Bool.not_eq_true, h.received]
    exact hfresh
  have hin : index < buffer.totalFragments := h.total_eq ▸ hindex
  have hcapacity : index < bitsetWords * 64 := Nat.lt_of_lt_of_le hin h.coherent.total_le
  have hmask : ∀ other, (buffer.receivedMask.set index).2.get other = true ↔
      other ∈ insert index seen := by
    intro other
    rw [BitSet.get_set, Bool.or_eq_true, Bool.and_eq_true, h.received, Finset.mem_insert,
      decide_eq_true_eq, decide_eq_true_eq, and_iff_left hcapacity, or_comm]
  refine ⟨h.coherent.store _ hin hget, h.holds.store index, h.total_eq, hmask, fun other hother => ?_,
    ?_, ?_, ?_⟩
  · rcases Finset.mem_insert.mp hother with rfl | hold
    · exact hindex
    · exact h.within other hold
  · rw [Finset.card_insert_of_notMem hfresh, ← h.count]
    rfl
  · rw [Finset.sum_insert hfresh, ← h.size, Nat.add_comm]
    rfl
  · rw [← hmask, Bool.not_eq_true]
    unfold FragmentBuffer.store
    dsimp only
    split
    next heq =>
      -- the base has moved on to the next gap
      refine advanceBase_gap (Nat.succ_le_of_lt hin) fun other hother => ?_
      rw [← Bool.not_eq_true, hmask, Finset.mem_insert, not_or]
      exact ⟨by omega, fun hold => absurd (h.within other hold) (by
        rw [h.total_eq] at hother
        omega)⟩
    next hne =>
      rw [← Bool.not_eq_true, hmask, Finset.mem_insert, not_or]
      exact ⟨Ne.symm hne, h.gap⟩

/-- A fragment of the message adds its index to those seen. -/
theorem Follows.addFragment (h : buffer.Follows total fragment seen) {index : Nat}
    (hindex : index < total) :
    (buffer.addFragment index (fragment index)).2.Follows total fragment (insert index seen) := by
  unfold FragmentBuffer.addFragment
  rw [if_neg (Nat.not_le.mpr (h.total_eq ▸ hindex))]
  split
  next hget =>
    rw [Finset.insert_eq_of_mem ((h.received index).mp hget)]
    exact h
  next hget =>
    exact h.store hindex fun hseen => hget ((h.received index).mpr hseen)

theorem Follows.shows (h : buffer.Follows total fragment seen) :
    buffer.Shows total fragment seen := by
  have hsubset : seen ⊆ Finset.range total := fun index hindex =>
    Finset.mem_range.mpr (h.within index hindex)
  have hcomplete : buffer.isComplete = true ↔ seen = Finset.range total := by
    rw [isComplete, beq_iff_eq, h.count, h.total_eq]
    constructor
    · intro hcard
      exact Finset.eq_of_subset_of_card_le hsubset (by rw [Finset.card_range, hcard])
    · intro heq
      rw [heq, Finset.card_range]
  refine ⟨h.received, h.count, ⟨h.gap, fun index hindex => ?_⟩, h.size, ?_, hcomplete, fun heq => ?_⟩
  · by_contra hlt
    exact hindex ((h.received index).mp (h.coherent.below_base index (Nat.not_le.mp hlt)))
  · unfold plannedTotalSize
    split
    next hzero =>
      have hempty : seen = ∅ := by
        rw [← h.total_eq, hzero] at hsubset
        exact Finset.subset_empty.mp hsubset
      rw [totalAllocatedSize, h.size, h.count, hempty]
      rfl
    next => exact Nat.le_max_right _ _
  · rw [← h.total_eq]
    exact h.coherent.assemble_eq h.holds (hcomplete.mpr heq)

/-- The buffer after the fragments at these indices. -/
def receiveAll (fragment : Nat → Bytes) (buffer : FragmentBuffer) (indices : List Nat) :
    FragmentBuffer :=
  indices.foldl (fun buffer index => (buffer.addFragment index (fragment index)).2) buffer

theorem Follows.receiveAll {indices : List Nat} (h : buffer.Follows total fragment seen)
    (hindices : ∀ index ∈ indices, index < total) :
    (buffer.receiveAll fragment indices).Follows total fragment (seen ∪ indices.toFinset) := by
  induction indices generalizing buffer seen with
  | nil =>
      rw [List.toFinset_nil, Finset.union_empty]
      exact h
  | cons index rest ih =>
      rw [List.forall_mem_cons] at hindices
      have hrest := ih (h.addFragment hindices.1) hindices.2
      rw [Finset.insert_union, ← Finset.union_insert, ← List.toFinset_cons] at hrest
      exact hrest

end FragmentBuffer

namespace MessageReassembler

/-- The reassembler after the fragments at these indices, each with the time of its arrival. -/
def receiveArrivals (fragment : Nat → Bytes) (reassembler : MessageReassembler)
    (arrivals : List (Nat × Instant)) : MessageReassembler :=
  arrivals.foldl (fun reassembler arrival =>
    (reassembler.addFragment arrival.1 (fragment arrival.1) arrival.2).2) reassembler

variable {total index : Nat} {fragment : Nat → Bytes} {seen : Finset Nat}

/-- The size limit turns away repetitions at most, where the fragments fit into a message. -/
theorem buffer_addFragment {reassembler : MessageReassembler}
    (h : reassembler.buffer.Follows total fragment seen)
    (hsize : ∑ index ∈ Finset.range total, (fragment index).length ≤ maxMessageSize)
    (hindex : index < total) (now : Instant) :
    (reassembler.addFragment index (fragment index) now).2.buffer =
      (reassembler.buffer.addFragment index (fragment index)).2 := by
  unfold addFragment
  dsimp only
  split
  next hlarge =>
    by_cases hseen : index ∈ seen
    · have hget := (h.received index).mpr hseen
      have hin := h.total_eq ▸ hindex
      rw [FragmentBuffer.addFragment, if_neg (Nat.not_le.mpr hin), if_pos hget]
    · have hsubset : insert index seen ⊆ Finset.range total := fun other hother => by
        rcases Finset.mem_insert.mp hother with rfl | hold
        · exact Finset.mem_range.mpr hindex
        · exact Finset.mem_range.mpr (h.within other hold)
      have hsum := Finset.sum_le_sum_of_subset (f := fun index => (fragment index).length) hsubset
      rw [Finset.sum_insert hseen, ← h.size] at hsum
      omega
  next => rfl

theorem buffer_receiveArrivals (reassembler : MessageReassembler)
    (h : reassembler.buffer.Follows total fragment seen)
    (hsize : ∑ index ∈ Finset.range total, (fragment index).length ≤ maxMessageSize)
    {arrivals : List (Nat × Instant)} (harrivals : ∀ arrival ∈ arrivals, arrival.1 < total) :
    (reassembler.receiveArrivals fragment arrivals).buffer =
      reassembler.buffer.receiveAll fragment (arrivals.map Prod.fst) := by
  induction arrivals generalizing reassembler seen with
  | nil => rfl
  | cons arrival rest ih =>
      rw [List.forall_mem_cons] at harrivals
      have hstep := buffer_addFragment h hsize harrivals.1 arrival.2
      have hrest := ih (reassembler.addFragment arrival.1 (fragment arrival.1) arrival.2).2
        (hstep ▸ h.addFragment harrivals.1) harrivals.2
      rw [hstep] at hrest
      exact hrest

end MessageReassembler

namespace OutgoingMessage

/-- The fragments of a message partition its data, and a fresh reassembler puts them together in
whatever order they come. -/
structure Reassembles (msg : OutgoingMessage) : Prop where
  partition : ((List.range msg.numFragments).map msg.getFragment).flatten = msg.data
  nonempty : ∀ index < msg.numFragments, msg.getFragment index ≠ []
  buffer : ∀ indices : List Nat, (∀ index ∈ indices, index < msg.numFragments) →
    ((FragmentBuffer.new msg.numFragments).receiveAll msg.getFragment indices).Shows
      msg.numFragments msg.getFragment indices.toFinset
  reassembler : msg.data.length ≤ maxMessageSize →
    ∀ id priority reserved created fresh,
      MessageReassembler.new id msg.numFragments priority reserved created = .ok fresh →
    ∀ arrivals : List (Nat × Instant), (∀ arrival ∈ arrivals, arrival.1 < msg.numFragments) →
      (fresh.receiveArrivals msg.getFragment arrivals).buffer.Shows msg.numFragments msg.getFragment
        (arrivals.map Prod.fst).toFinset

theorem new_fields {messageType : MessageType} {data : Bytes} {payloadMtu : Nat} {now : Instant}
    {msg : OutgoingMessage} (h : new messageType data payloadMtu now = .ok msg) :
    msg.data = data ∧ msg.payloadMtu = payloadMtu ∧
      msg.numFragments = countFragments data payloadMtu ∧
        msg.numFragments ≤ maxFragmentsPerMessage := by
  unfold new at h
  dsimp only at h
  split at h
  next => cases h
  next hcount =>
    cases h
    exact ⟨rfl, rfl, rfl, Nat.not_lt.mp hcount⟩

/-- The cast of the number of fragments loses nothing where it fits. -/
theorem countFragments_of_le {data : Bytes} {payloadMtu : Nat}
    (hsize : data.length ≤ 65535 * payloadMtu) :
    data.length ≤ countFragments data payloadMtu * payloadMtu ∧
      ∀ index < countFragments data payloadMtu, index * payloadMtu < data.length := by
  unfold countFragments
  cases data with
  | nil => exact ⟨Nat.zero_le _, fun index hindex => absurd hindex (Nat.not_lt_zero _)⟩
  | cons first rest =>
      have hpos : 0 < payloadMtu := by
        by_contra hzero
        rw [Nat.eq_zero_of_not_pos hzero] at hsize
        exact absurd hsize (Nat.not_succ_le_zero _)
      generalize hlength : (first :: rest).length = length at hsize
      have hlow := Nat.div_add_mod (length + payloadMtu - 1) payloadMtu
      have hmod := Nat.mod_lt (length + payloadMtu - 1) hpos
      generalize (length + payloadMtu - 1) / payloadMtu = count at hlow
      have hposLength : 0 < length := by rw [← hlength]; exact Nat.succ_pos _
      rw [Nat.mul_comm] at hlow
      have hfits : count < 2 ^ 16 := by
        by_contra hlarge
        have hmul := Nat.mul_le_mul_right payloadMtu (Nat.not_lt.mp hlarge)
        omega
      rw [List.isEmpty_cons, if_neg Bool.false_ne_true, Nat.mod_eq_of_lt hfits]
      refine ⟨by omega, fun index hindex => ?_⟩
      have hmul := Nat.mul_le_mul_right payloadMtu (Nat.succ_le_of_lt hindex)
      rw [Nat.succ_mul] at hmul
      omega

theorem length_getFragment_le (msg : OutgoingMessage) (index : Nat) :
    (msg.getFragment index).length ≤ msg.payloadMtu := by
  unfold getFragment
  split
  · exact Nat.zero_le _
  · rw [List.length_take]
    omega

/-- Fragments of the size of a packet hold no more than there are of them. -/
theorem Reassembles.length_le {msg : OutgoingMessage} (h : msg.Reassembles) :
    msg.data.length ≤ msg.numFragments * msg.payloadMtu := by
  have hflatten := congrArg List.length h.partition
  rw [List.length_flatten, List.map_map] at hflatten
  have hbound := List.sum_le_card_nsmul ((List.range msg.numFragments).map
    (List.length ∘ msg.getFragment)) msg.payloadMtu (fun length hlength => by
      obtain ⟨index, -, rfl⟩ := List.mem_map.mp hlength
      exact msg.length_getFragment_le index)
  rw [List.length_map, List.length_range, smul_eq_mul] at hbound
  exact hflatten.symm.trans_le hbound

/-- A message reassembles if and only if the number of its fragments fits the `u16` that it is
cast to before it is checked. -/
theorem reassembles_iff (messageType : MessageType) (data : Bytes) (payloadMtu : Nat)
    (now : Instant) (msg : OutgoingMessage)
    (h : new messageType data payloadMtu now = .ok msg) :
    msg.Reassembles ↔ data.length ≤ 65535 * payloadMtu := by
  obtain ⟨hdata, hmtu, hcount, hmax⟩ := new_fields h
  constructor
  · intro hreassembles
    have hlength := hreassembles.length_le
    rw [hdata, hmtu] at hlength
    exact hlength.trans (Nat.mul_le_mul_right payloadMtu (hmax.trans (by decide : _ ≤ 65535)))
  · intro hsize
    obtain ⟨hcover, hstart⟩ := countFragments_of_le hsize
    rw [← hcount] at hcover hstart
    have hfragment : msg.getFragment = fragmentOf data payloadMtu := by
      funext index
      rw [getFragment_eq (by rwa [hdata, hmtu]) index, hdata, hmtu]
    have hpartition : ((List.range msg.numFragments).map msg.getFragment).flatten = msg.data := by
      rw [hfragment, hdata, flatten_fragmentOf hcover]
    have hnew := FragmentBuffer.follows_new msg.getFragment hmax
    refine ⟨hpartition, fun index hindex hempty => ?_, fun indices hindices => ?_, ?_⟩
    · have hlength := congrArg List.length hempty
      have hin := hstart index hindex
      have hpos : 0 < payloadMtu := by
        by_contra hzero
        rw [Nat.eq_zero_of_not_pos hzero] at hsize
        omega
      rw [hfragment, fragmentOf, List.length_take, List.length_drop, List.length_nil] at hlength
      omega
    · have hfollows := hnew.receiveAll hindices
      rw [Finset.empty_union] at hfollows
      exact hfollows.shows
    · intro hlimit id priority reserved created fresh hfresh arrivals harrivals
      have hbuffer : fresh.buffer = FragmentBuffer.new msg.numFragments := by
        unfold MessageReassembler.new at hfresh
        split at hfresh
        next => cases hfresh
        next =>
          cases hfresh
          rfl
      have hsum : ∑ index ∈ Finset.range msg.numFragments, (msg.getFragment index).length ≤
          maxMessageSize := by
        have hflatten := congrArg List.length hpartition
        rw [List.length_flatten, List.map_map] at hflatten
        have hsum := List.sum_toFinset (fun index => (msg.getFragment index).length)
          (List.nodup_range (n := msg.numFragments))
        rw [List.toFinset_range] at hsum
        rw [hsum]
        exact hflatten.trans_le hlimit
      rw [← hbuffer] at hnew
      have hindices : ∀ index ∈ arrivals.map Prod.fst, index < msg.numFragments := by
        intro index hindex
        obtain ⟨arrival, harrival, rfl⟩ := List.mem_map.mp hindex
        exact harrivals arrival harrival
      have hfollows := hnew.receiveAll hindices
      rw [Finset.empty_union,
        ← MessageReassembler.buffer_receiveArrivals fresh hnew hsum harrivals] at hfollows
      exact hfollows.shows

/-- Of 65537 fragments, one is left by the cast: the first byte is sent, and the rest is not. -/
theorem fragments_truncated :
    ∃ msg, new .merkleNode (List.replicate 65537 0) 1 0 = .ok msg ∧ msg.numFragments = 1 ∧
      ¬ msg.Reassembles := by
  have hcount : countFragments (List.replicate 65537 0) 1 = 1 := by
    have hempty : (List.replicate 65537 (0 : UInt8)).isEmpty = false := by
      rw [List.isEmpty_eq_false_iff, Ne, List.replicate_eq_nil_iff]
      decide
    rw [countFragments, hempty, List.length_replicate]
    rfl
  have hnew : ∃ msg, new .merkleNode (List.replicate 65537 0) 1 0 = .ok msg := by
    unfold new
    rw [hcount]
    exact ⟨_, rfl⟩
  obtain ⟨msg, hmsg⟩ := hnew
  obtain ⟨hdata, hmtu, hfragments, -⟩ := new_fields hmsg
  refine ⟨msg, hmsg, hfragments.trans hcount, fun h => ?_⟩
  have hlength := h.length_le
  rw [hdata, hmtu, hfragments, hcount, List.length_replicate] at hlength
  exact absurd hlength (by decide)

/-- Three bytes in fragments of two. -/
theorem reassembles_small : ∃ msg, new .merkleNode [1, 2, 3] 2 0 = .ok msg ∧ msg.Reassembles :=
  ⟨_, rfl, (reassembles_iff .merkleNode [1, 2, 3] 2 0 _ rfl).mpr (by decide)⟩

end OutgoingMessage

end MerkleTox.Sequenced
