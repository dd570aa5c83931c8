import MerkleTox.Sequenced.BitSet
import MerkleTox.Sequenced.Protocol

/-! # Reassembly of fragmented messages

The fragment buffer of one incoming message and the shared memory quota that
admits it. A buffer stays *coherent*: the bit set, the counter and the stored
fragments agree, and everything below the base index has arrived. A coherent
buffer that only holds fragments of one message assembles to that message.
-/

namespace MerkleTox.Sequenced

open Proto

/-- The shared memory budget. `usedBytes` is an atomic counter that other
sessions of the same process change as well. The code has no `overdrawn`: it says that
a release has exceeded what was reserved. -/
structure ReassemblyQuota where
  maxBytes : Nat
  usedBytes : Nat
  overdrawn : Bool
  deriving DecidableEq

namespace ReassemblyQuota

def new (maxBytes : Nat) : ReassemblyQuota := ⟨maxBytes, 0, false⟩

/-- The admission threshold of a priority, in percent of the maximum. -/
def threshold (quota : ReassemblyQuota) : Priority → Nat
  | .bulk => quota.maxBytes * 70 / 100
  | .low => quota.maxBytes * 80 / 100
  | .standard => quota.maxBytes * 90 / 100
  | .high => quota.maxBytes * 95 / 100
  | .critical => quota.maxBytes * 99 / 100

def reserveUpTo (quota : ReassemblyQuota) (limit amount : Nat) : Bool × ReassemblyQuota :=
  if limit < quota.usedBytes + amount then (false, quota)
  else (true, { quota with usedBytes := quota.usedBytes + amount })

def reserve (quota : ReassemblyQuota) (amount : Nat) (priority : Priority) :
    Bool × ReassemblyQuota :=
  quota.reserveUpTo (quota.threshold priority) amount

def reserveGuaranteed (quota : ReassemblyQuota) (amount : Nat) : Bool × ReassemblyQuota :=
  quota.reserveUpTo quota.maxBytes amount

def release (quota : ReassemblyQuota) (amount : Nat) : ReassemblyQuota :=
  { quota with
    usedBytes := quota.usedBytes - amount
    overdrawn := quota.overdrawn || decide (quota.usedBytes < amount) }

def available (quota : ReassemblyQuota) : Nat := quota.maxBytes - quota.usedBytes

end ReassemblyQuota

/-- `size_of::<Option<Vec<u8>>>()` on a 64-bit target and the heap estimate. -/
def perFragmentOverhead : Nat := 24 + 32

/-- The fragments of one message received so far. -/
structure FragmentBuffer where
  fragments : List (Option Bytes)
  totalFragments : Nat
  receivedMask : BitSet bitsetWords
  receivedCount : Nat
  currentSize : Nat
  fullFragmentSize : Option Nat
  lastFragmentSize : Option Nat
  baseIndex : Nat
  highestIndex : Nat

namespace FragmentBuffer

def new (totalFragments : Nat) : FragmentBuffer where
  fragments := List.replicate totalFragments none
  totalFragments := totalFragments
  receivedMask := .new
  receivedCount := 0
  currentSize := 0
  fullFragmentSize := none
  lastFragmentSize := none
  baseIndex := 0
  highestIndex := 0

def isComplete (buffer : FragmentBuffer) : Bool := buffer.receivedCount == buffer.totalFragments

/-- The first index from `base` on that is not received, or the end. -/
def advanceBase (mask : BitSet bitsetWords) (total base : Nat) : Nat :=
  go (total - base) base
where
  go : Nat → Nat → Nat
  | 0, base => base
  | rounds + 1, base => if base < total ∧ mask.get base then go rounds (base + 1) else base

/-- Store a fragment that passed the index and duplicate checks. -/
def store (buffer : FragmentBuffer) (index : Nat) (data : Bytes) : FragmentBuffer :=
  let mask := (buffer.receivedMask.set index).2
  let isLast := index = buffer.totalFragments - 1
  { buffer with
    lastFragmentSize := if isLast then some data.length else buffer.lastFragmentSize
    fullFragmentSize :=
      if isLast then buffer.fullFragmentSize
      else match buffer.fullFragmentSize with
        | none => some data.length
        | some current => if current < data.length then some data.length else some current
    currentSize := buffer.currentSize + data.length
    fragments := buffer.fragments.set index (some data)
    receivedMask := mask
    receivedCount := buffer.receivedCount + 1
    baseIndex :=
      if index = buffer.baseIndex then advanceBase mask buffer.totalFragments (index + 1)
      else buffer.baseIndex
    highestIndex := max buffer.highestIndex index }

/-- Adds a fragment; the answer says whether the message is now complete. -/
def addFragment (buffer : FragmentBuffer) (index : Nat) (data : Bytes) :
    Except SequencedError Bool × FragmentBuffer :=
  if buffer.totalFragments ≤ index then (.error .invalidFragmentIndex, buffer)
  else if buffer.receivedMask.get index then (.ok buffer.isComplete, buffer)
  else
    let buffer := buffer.store index data
    (.ok buffer.isComplete, buffer)

def assemble (buffer : FragmentBuffer) : Option Bytes :=
  if buffer.isComplete then some (buffer.fragments.filterMap id).flatten else none

def totalAllocatedSize (buffer : FragmentBuffer) : Nat :=
  buffer.currentSize + buffer.receivedCount * perFragmentOverhead

/-- The expected size of the assembled message, estimated from the fragments seen. -/
def plannedTotalSize (buffer : FragmentBuffer) : Nat :=
  if buffer.totalFragments = 0 then 0
  else
    let fullSize := buffer.fullFragmentSize.getD estimatedPayloadSize
    let lastSize := buffer.lastFragmentSize.getD fullSize
    let estimatedPayload :=
      if buffer.totalFragments = 1 then lastSize
      else (buffer.totalFragments - 1) * fullSize + lastSize
    max (estimatedPayload + buffer.totalFragments * perFragmentOverhead) buffer.totalAllocatedSize

end FragmentBuffer

structure MessageReassembler where
  messageId : MessageId
  totalFragments : Nat
  priority : Priority
  buffer : FragmentBuffer
  reservedBytes : Nat
  lastActivity : Instant

namespace MessageReassembler

def new (messageId : MessageId) (totalFragments : Nat) (priority : Priority) (reservedBytes : Nat)
    (now : Instant) : Except SequencedError MessageReassembler :=
  if totalFragments = 0 ∨ maxFragmentsPerMessage < totalFragments then
    .error .invalidTotalFragments
  else
    .ok ⟨messageId, totalFragments, priority, .new totalFragments, reservedBytes, now⟩

def isReceived (reassembler : MessageReassembler) (index : Nat) : Bool :=
  if reassembler.totalFragments ≤ index then false else reassembler.buffer.receivedMask.get index

/-- The size limit is checked before the duplicate check of the buffer. -/
def addFragment (reassembler : MessageReassembler) (index : Nat) (data : Bytes) (now : Instant) :
    Except SequencedError Bool × MessageReassembler :=
  let reassembler := { reassembler with lastActivity := now }
  if maxMessageSize < reassembler.buffer.currentSize + data.length then
    (.error .messageTooLarge, reassembler)
  else
    let (result, buffer) := reassembler.buffer.addFragment index data
    (result, { reassembler with buffer := buffer })

def assemble (reassembler : MessageReassembler) : Option Bytes := reassembler.buffer.assemble

def createAck (reassembler : MessageReassembler) (rwnd : Nat) : SelectiveAck where
  messageId := reassembler.messageId
  baseIndex := reassembler.buffer.baseIndex
  bitmask := reassembler.buffer.receivedMask.sackMask reassembler.buffer.baseIndex
  rwnd := rwnd

/-- The holes from `baseIndex` to the highest received index, at most 128 of them. -/
def createNack (reassembler : MessageReassembler) (baseIndex : Nat) : Option Nack :=
  let missing := go 128 baseIndex
  if missing.isEmpty then none else some ⟨reassembler.messageId, missing⟩
where
  go : Nat → Nat → List Nat
  | 0, _ => []
  | rounds + 1, curr =>
      match reassembler.buffer.receivedMask.nextZero curr reassembler.buffer.highestIndex with
      | none => []
      | some hole => hole :: go rounds (hole + 1)

def plannedTotalSize (reassembler : MessageReassembler) : Nat :=
  reassembler.buffer.plannedTotalSize

end MessageReassembler

namespace FragmentBuffer

/-- The bookkeeping of a buffer agrees with the fragments it stores. -/
structure Coherent (buffer : FragmentBuffer) : Prop where
  length_fragments : buffer.fragments.length = buffer.totalFragments
  total_le : buffer.totalFragments ≤ maxFragmentsPerMessage
  mask_iff : ∀ index, buffer.receivedMask.get index = true ↔
    ∃ data, buffer.fragments[index]? = some (some data)
  count_eq : buffer.receivedCount = buffer.fragments.countP Option.isSome
  base_le : buffer.baseIndex ≤ buffer.totalFragments
  below_base : ∀ index < buffer.baseIndex, buffer.receivedMask.get index = true

/-- Every stored fragment is the one the message has at that index. -/
def HoldsOnly (buffer : FragmentBuffer) (fragment : Nat → Bytes) : Prop :=
  ∀ index data, buffer.fragments[index]? = some (some data) → data = fragment index

theorem advanceBase_le (mask : BitSet bitsetWords) {total base : Nat} (hbase : base ≤ total) :
    advanceBase mask total base ≤ total := by
  unfold advanceBase
  generalize hrounds : total - base = rounds
  induction rounds generalizing base with
  | zero =>
      simp only [advanceBase.go]
      omega
  | succ rounds ih =>
      unfold advanceBase.go
      split
      next h => exact ih h.1 (by omega)
      next => exact hbase

theorem advanceBase_received (mask : BitSet bitsetWords) {total base : Nat}
    (hbelow : ∀ index < base, mask.get index = true) :
    ∀ index < advanceBase mask total base, mask.get index = true := by
  unfold advanceBase
  generalize total - base = rounds
  induction rounds generalizing base with
  | zero => exact hbelow
  | succ rounds ih =>
      unfold advanceBase.go
      split
      next h =>
        apply ih
        intro index hindex
        rcases Nat.lt_succ_iff_lt_or_eq.mp hindex with hlt | heq
        · exact hbelow index hlt
        · exact heq ▸ h.2
      next => exact hbelow

theorem coherent_new {totalFragments : Nat} (hle : totalFragments ≤ maxFragmentsPerMessage) :
    (new totalFragments).Coherent where
  length_fragments := by simp [new]
  total_le := hle
  mask_iff := by
    intro index
    simp [new, List.getElem?_replicate]
  count_eq := by simp [new, List.countP_replicate]
  base_le := by simp [new]
  below_base := by simp [new]

variable {buffer : FragmentBuffer} {index : Nat} {fragment : Nat → Bytes}

theorem Coherent.not_received (hcoherent : buffer.Coherent) (hindex : index < buffer.totalFragments)
    (hget : buffer.receivedMask.get index = false) : buffer.fragments[index]? = some none := by
  rw [← hcoherent.length_fragments] at hindex
  cases hfragment : buffer.fragments[index]? with
  | none => exact absurd (List.getElem?_eq_none_iff.mp hfragment) (Nat.not_le.mpr hindex)
  | some slot =>
      cases slot with
      | none => rfl
      | some data =>
          have hset := (hcoherent.mask_iff index).mpr ⟨data, hfragment⟩
          rw [hget] at hset
          exact absurd hset (by decide)

/-- Filling an empty slot adds one to the number of filled slots. -/
theorem countP_set_some {fragments : List (Option Bytes)} (data : Bytes)
    (hslot : fragments[index]? = some none) :
    (fragments.set index (some data)).countP Option.isSome =
      fragments.countP Option.isSome + 1 := by
  induction fragments generalizing index with
  | nil => simp at hslot
  | cons slot rest ih =>
      cases index with
      | zero =>
          simp only [List.getElem?_cons_zero, Option.some.injEq] at hslot
          simp [hslot]
      | succ index =>
          simp only [List.getElem?_cons_succ] at hslot
          simp only [List.set_cons_succ, List.countP_cons, ih hslot]
          omega

theorem Coherent.store (hcoherent : buffer.Coherent) (data : Bytes)
    (hindex : index < buffer.totalFragments) (hget : buffer.receivedMask.get index = false) :
    (buffer.store index data).Coherent := by
  have hslot := hcoherent.not_received hindex hget
  have hlength : index < buffer.fragments.length := hcoherent.length_fragments ▸ hindex
  have hcapacity : index < bitsetWords * 64 :=
    lt_of_lt_of_le hindex hcoherent.total_le
  have hmask : ∀ other, (buffer.receivedMask.set index).2.get other =
      (buffer.receivedMask.get other || decide (other = index)) := by
    intro other
    simp [BitSet.get_set, hcapacity]
  refine ⟨?_, hcoherent.total_le, ?_, ?_, ?_, ?_⟩
  · simpa [FragmentBuffer.store] using hcoherent.length_fragments
  · intro other
    simp only [FragmentBuffer.store, hmask, Bool.or_eq_true, decide_eq_true_eq]
    rw [hcoherent.mask_iff other]
    by_cases heq : other = index
    · subst heq
      simp [hlength]
    · simp [heq, List.getElem?_set_ne (Ne.symm heq)]
  · simp only [FragmentBuffer.store, countP_set_some data hslot, hcoherent.count_eq]
  · simp only [FragmentBuffer.store]
    split
    next => exact advanceBase_le _ hindex
    next => exact hcoherent.base_le
  · simp only [FragmentBuffer.store]
    split
    next heq =>
      apply advanceBase_received
      intro other hother
      rw [hmask]
      rcases Nat.lt_succ_iff_lt_or_eq.mp hother with hlt | hself
      · simp [hcoherent.below_base other (heq ▸ hlt)]
      · simp [hself]
    next =>
      intro other hother
      rw [hmask, hcoherent.below_base other hother]
      rfl

theorem HoldsOnly.store (hholds : buffer.HoldsOnly fragment) (index : Nat) :
    (buffer.store index (fragment index)).HoldsOnly fragment := by
  intro other data hother
  simp only [FragmentBuffer.store, List.getElem?_set] at hother
  split at hother
  next heq =>
    split at hother
    · simp only [Option.some.injEq] at hother
      rw [← heq, hother]
    · simp at hother
  next => exact hholds other data hother

theorem holdsOnly_new (totalFragments : Nat) (fragment : Nat → Bytes) :
    (new totalFragments).HoldsOnly fragment := by
  intro index data hdata
  simp [new, List.getElem?_replicate] at hdata

/-- A coherent buffer is complete exactly when every index has arrived. -/
theorem Coherent.isComplete_iff (hcoherent : buffer.Coherent) :
    buffer.isComplete = true ↔
      ∀ index < buffer.totalFragments, buffer.receivedMask.get index = true := by
  rw [isComplete, beq_iff_eq, hcoherent.count_eq, ← hcoherent.length_fragments,
    List.countP_eq_length]
  constructor
  · intro hall index hindex
    rw [hcoherent.mask_iff]
    obtain ⟨data, hdata⟩ := Option.isSome_iff_exists.mp (hall _ (List.getElem_mem hindex))
    exact ⟨data, by rw [List.getElem?_eq_getElem hindex, hdata]⟩
  · intro hall slot hslot
    obtain ⟨index, hindex, hget⟩ := List.getElem_of_mem hslot
    obtain ⟨data, hdata⟩ := (hcoherent.mask_iff index).mp (hall index hindex)
    rw [List.getElem?_eq_getElem hindex, hget, Option.some.injEq] at hdata
    simp [hdata]

/-- A complete coherent buffer of one message assembles to the concatenation of
all its fragments in order. -/
theorem Coherent.assemble_eq (hcoherent : buffer.Coherent) (hholds : buffer.HoldsOnly fragment)
    (hcomplete : buffer.isComplete = true) :
    buffer.assemble = some ((List.range buffer.totalFragments).map fragment).flatten := by
  have hall := hcoherent.isComplete_iff.mp hcomplete
  have hfragments : buffer.fragments =
      (List.range buffer.totalFragments).map fun index => some (fragment index) := by
    apply List.ext_getElem?
    intro index
    by_cases hindex : index < buffer.totalFragments
    · obtain ⟨data, hdata⟩ := (hcoherent.mask_iff index).mp (hall index hindex)
      rw [hdata, hholds index data hdata]
      simp [hindex]
    · rw [List.getElem?_eq_none (by rw [hcoherent.length_fragments]; omega)]
      simp [hindex]
  rw [assemble, if_pos hcomplete, hfragments]
  congr 2
  rw [List.filterMap_map]
  exact congrFun (List.filterMap_eq_map (f := fragment)) _

end FragmentBuffer

end MerkleTox.Sequenced
