import MerkleTox.Core.Identity
import MerkleTox.Fs.Conversation
import MerkleTox.Fs.Segments
import MerkleTox.Library.SparseFile
import MerkleTox.Library.Windows

/-! # The ratchet file

`ratchet.bin` has a header of sixteen bytes, the magic number, the active buffer and the counts of
both, and two buffers of slots. A save fills the other buffer, then sets its count, then makes it
the active one. The second buffer is where 1024 slots of the first would end, so a longer list
reaches into it.
-/

namespace MerkleTox.Fs

open Library Proto MerkleTox.Core

namespace RatchetSlot

/-- `RatchetSlot::SIZE`. -/
def size : Nat := 32 + 32 + 8 + 8

def toBytes (slot : RatchetSlot) : Bytes :=
  toBe 32 slot.devicePk.bytes.toNat ++ toBe 32 slot.chainKey.bytes.toNat ++
    toLe 8 slot.lastSequenceNumber ++ toLe 8 slot.epochId

def fromBytes (buf : Bytes) : RatchetSlot where
  devicePk := ⟨BitVec.ofNat 256 (fromBe (buf.take 32))⟩
  chainKey := ⟨BitVec.ofNat 256 (fromBe ((buf.drop 32).take 32))⟩
  lastSequenceNumber := fromLe ((buf.drop 64).take 8)
  epochId := fromLe ((buf.drop 72).take 8)

/-- The numbers of a slot are `u64`. -/
structure Fits (slot : RatchetSlot) : Prop where
  lastSequenceNumber : slot.lastSequenceNumber < 2 ^ 64
  epochId : slot.epochId < 2 ^ 64

@[simp]
theorem length_toBytes (slot : RatchetSlot) : slot.toBytes.length = size := by
  simp [toBytes, size, length_toBe]

/-- The four fields of a slot are where they are expected. -/
theorem fromBytes_append {devicePk chainKey seq epoch : Bytes} (hdevice : devicePk.length = 32)
    (hchain : chainKey.length = 32) (hseq : seq.length = 8) (hepoch : epoch.length = 8) :
    fromBytes (devicePk ++ chainKey ++ seq ++ epoch) =
      ⟨⟨BitVec.ofNat 256 (fromBe devicePk)⟩, ⟨BitVec.ofNat 256 (fromBe chainKey)⟩, fromLe seq,
        fromLe epoch⟩ := by
  have hfront : (devicePk ++ chainKey).length = 64 := by rw [List.length_append, hdevice, hchain]
  have hmost : (devicePk ++ chainKey ++ seq).length = 72 := by
    rw [List.length_append, hfront, hseq]
  unfold fromBytes
  rw [List.drop_left' hmost, List.take_of_length_le hepoch.le, List.append_assoc,
    List.drop_left' hfront, List.take_left' hseq, List.append_assoc, List.drop_left' hdevice,
    List.take_left' hchain, List.take_left' hdevice]

theorem fromBytes_toBytes {slot : RatchetSlot} (h : slot.Fits) : fromBytes slot.toBytes = slot := by
  have hbytes : ∀ bytes : Bytes32, BitVec.ofNat 256 (fromBe (toBe 32 bytes.toNat)) = bytes := by
    intro bytes
    have hfits : bytes.toNat < 256 ^ 32 := bytes.isLt
    rw [fromBe_toBe 32 hfits, BitVec.ofNat_toNat, BitVec.setWidth_eq]
  have hseq : fromLe (toLe 8 slot.lastSequenceNumber) = slot.lastSequenceNumber :=
    fromLe_toLe 8 h.lastSequenceNumber
  have hepoch : fromLe (toLe 8 slot.epochId) = slot.epochId := fromLe_toLe 8 h.epochId
  rw [toBytes, fromBytes_append (length_toBe 32 _) (length_toBe 32 _) (length_toLe 8 _)
    (length_toLe 8 _), hbytes, hbytes, hseq, hepoch]

end RatchetSlot

namespace RatchetFile

def ratchetMagic : Nat := 0x52415443

/-- `RatchetFile::open`: an empty file gets its header. -/
def openFile (contents : Bytes) : Bytes :=
  if contents.isEmpty then toLe 4 ratchetMagic ++ toLe 4 0 ++ toLe 4 0 ++ toLe 4 0 else contents

def readSlots : Nat → Reader (List RatchetSlot)
  | 0, input => some ([], input)
  | count + 1, input => do
      let (buf, input) ← readExact RatchetSlot.size input
      let (slots, input) ← readSlots count input
      some (RatchetSlot.fromBytes buf :: slots, input)

def load (contents : Bytes) : Option (List RatchetSlot) := do
  let (active, input) ← readLe 4 (contents.drop 4)
  let (count0, input) ← readLe 4 input
  let (count1, _) ← readLe 4 input
  let (count, offset) :=
    if active = 0 then (count0, 16) else (count1, 16 + 1024 * RatchetSlot.size)
  let (slots, _) ← readSlots count (contents.drop offset)
  some slots

/-- The writes of the slots, one behind the other. -/
def slotWrites : Nat → List RatchetSlot → List (Nat × Bytes)
  | _, [] => []
  | offset, slot :: slots => (offset, slot.toBytes) :: slotWrites (offset + RatchetSlot.size) slots

/-- The writes of `save` in their order: the slots, the count and the active buffer. -/
def saveWrites (next : Nat) (slots : List RatchetSlot) : List (Nat × Bytes) :=
  slotWrites (16 + next * 1024 * RatchetSlot.size) slots ++
    [(if next = 0 then 8 else 12, toLe 4 slots.length), (4, toLe 4 next)]

def perform (contents : Bytes) (writes : List (Nat × Bytes)) : Bytes :=
  writes.foldl (fun contents write => writeAt 0 contents write.1 write.2) contents

/-- `next`, the buffer that is not active; `1 - active` does not go below zero. -/
def nextBuffer (contents : Bytes) : Option Nat := do
  let (active, _) ← readLe 4 (contents.drop 4)
  if active ≤ 1 then some (1 - active) else none

def save (contents : Bytes) (slots : List RatchetSlot) : Option Bytes :=
  (nextBuffer contents).map fun next => perform contents (saveWrites next slots)

/-- `save`, stopped after so many of its writes. -/
def stopped (contents : Bytes) (slots : List RatchetSlot) (writes : Nat) : Option Bytes :=
  (nextBuffer contents).map fun next => perform contents ((saveWrites next slots).take writes)

/-- Saves into a new file, one after the other. -/
def saved (lists : List (List RatchetSlot)) : Option Bytes := lists.foldlM save (openFile [])

/-! ## Where things lie -/

/-- The slots of both buffers, numbered from the first one of the first buffer. -/
def cellOffset (cell : Nat) : Nat := 16 + cell * RatchetSlot.size

def countOffset (buffer : Nat) : Nat := 8 + 4 * buffer

/-- The header names the active buffer and the number of its slots, and the slots are there. -/
structure Holds (contents : Bytes) (active : Nat) (slots : List RatchetSlot) : Prop where
  activeStored : StoredAt contents 4 (toLe 4 active)
  countStored : StoredAt contents (countOffset active) (toLe 4 slots.length)
  idleStored : ∃ count, StoredAt contents (countOffset (1 - active)) (toLe 4 count)
  slotsStored : ∀ (i : Nat) slot, slots[i]? = some slot →
    StoredAt contents (cellOffset (1024 * active + i)) slot.toBytes

/-- A list of a conversation. -/
structure Storable (slots : List RatchetSlot) : Prop where
  length_le : slots.length ≤ maxGroupDevices
  fits : ∀ slot ∈ slots, slot.Fits

variable {contents : Bytes} {active : Nat} {slots old new : List RatchetSlot}

theorem readLe_drop {offset width n : Nat} (h : StoredAt contents offset (toLe width n))
    (hn : n < 256 ^ width) :
    readLe width (contents.drop offset) = some (n, contents.drop (offset + width)) := by
  rw [h.drop, readLe_toLe_append width hn, length_toLe]

/-- The same for a number that may not fit. -/
theorem readLe_drop_isSome {offset width n : Nat} (h : StoredAt contents offset (toLe width n)) :
    ∃ value, readLe width (contents.drop offset) =
      some (value, contents.drop (offset + width)) := by
  have hread := readExact_append (toLe width n) (contents.drop (offset + width))
  rw [length_toLe] at hread
  refine ⟨fromLe (toLe width n), ?_⟩
  rw [h.drop, length_toLe, readLe, hread]
  rfl

theorem readSlots_drop (cell : Nat) (hfits : ∀ slot ∈ slots, slot.Fits)
    (h : ∀ (i : Nat) slot, slots[i]? = some slot → StoredAt contents (cellOffset (cell + i)) slot.toBytes) :
    readSlots slots.length (contents.drop (cellOffset cell)) =
      some (slots, contents.drop (cellOffset (cell + slots.length))) := by
  induction slots generalizing cell with
  | nil => rfl
  | cons slot rest ih =>
      rw [List.forall_mem_cons] at hfits
      have hfirst := (h 0 slot rfl).drop
      have hnext : cellOffset cell + slot.toBytes.length = cellOffset (cell + 1) := by
        rw [RatchetSlot.length_toBytes, cellOffset, cellOffset, Nat.succ_mul, Nat.add_assoc]
      have hread := readExact_append slot.toBytes (contents.drop (cellOffset (cell + 1)))
      rw [RatchetSlot.length_toBytes] at hread
      have hrest := ih (cell + 1) hfits.2 fun i other hget => by
        have hstored := h (i + 1) other hget
        rwa [← Nat.add_assoc, Nat.add_right_comm] at hstored
      rw [Nat.add_zero, hnext] at hfirst
      rw [List.length_cons, readSlots, hfirst, hread]
      simp only [Option.bind_eq_bind, Option.bind_some, hrest, RatchetSlot.fromBytes_toBytes hfits.1]
      rw [Nat.add_right_comm, Nat.add_assoc]

theorem Holds.load_eq (h : Holds contents active slots) (hactive : active ≤ 1)
    (hstorable : Storable slots) : load contents = some slots := by
  have hcount : slots.length < 256 ^ 4 := hstorable.length_le.trans_lt (by decide)
  have hbuffer : active < 256 ^ 4 := hactive.trans_lt (by decide)
  have hread := readLe_drop h.activeStored hbuffer
  have hslots := readSlots_drop (1024 * active) hstorable.fits h.slotsStored
  obtain ⟨idle, hidle⟩ := h.idleStored
  obtain ⟨other, hother⟩ := readLe_drop_isSome hidle
  have hown := readLe_drop h.countStored hcount
  unfold load
  rw [hread]
  have hcases : active = 0 ∨ active = 1 := by omega
  rcases hcases with rfl | rfl
  · rw [countOffset] at hown hother
    have hoffset : cellOffset (1024 * 0) = 16 := rfl
    rw [hoffset] at hslots
    simp only [Option.bind_eq_bind, Option.bind_some, hown, hother, if_true, hslots]
  · rw [countOffset] at hown hother
    have hoffset : cellOffset (1024 * 1) = 16 + 1024 * RatchetSlot.size := rfl
    rw [hoffset] at hslots
    simp only [Option.bind_eq_bind, Option.bind_some, hown, hother, one_ne_zero, if_false, hslots]

/-! ## The writes of a save -/

theorem perform_append (contents : Bytes) (first second : List (Nat × Bytes)) :
    perform contents (first ++ second) = perform (perform contents first) second :=
  List.foldl_append

theorem perform_cons (contents : Bytes) (write : Nat × Bytes) (rest : List (Nat × Bytes)) :
    perform contents (write :: rest) = perform (writeAt 0 contents write.1 write.2) rest := rfl

theorem length_slotWrites (offset : Nat) (slots : List RatchetSlot) :
    (slotWrites offset slots).length = slots.length := by
  induction slots generalizing offset with
  | nil => rfl
  | cons slot rest ih => exact congrArg (· + 1) (ih _)

theorem take_slotWrites (offset count : Nat) (slots : List RatchetSlot) :
    (slotWrites offset slots).take count = slotWrites offset (slots.take count) := by
  induction slots generalizing offset count with
  | nil => rw [slotWrites, List.take_nil, List.take_nil, slotWrites]
  | cons slot rest ih =>
      cases count with
      | zero => rw [List.take_zero, List.take_zero, slotWrites]
      | succ count =>
          rw [List.take_succ_cons, slotWrites, slotWrites, List.take_succ_cons, ih]

theorem cellOffset_succ (cell : Nat) : cellOffset cell + RatchetSlot.size = cellOffset (cell + 1) := by
  rw [cellOffset, cellOffset, Nat.succ_mul, Nat.add_assoc]

theorem cellOffset_mono {first second : Nat} (h : first ≤ second) :
    cellOffset first ≤ cellOffset second :=
  Nat.add_le_add_left (Nat.mul_le_mul_right _ h) _

/-- Slots are written side by side, and nothing else. -/
theorem perform_slotWrites (contents : Bytes) (cell : Nat) (slots : List RatchetSlot) :
    (∀ {place data}, StoredAt contents place data →
      place + data.length ≤ cellOffset cell ∨ cellOffset (cell + slots.length) ≤ place →
        StoredAt (perform contents (slotWrites (cellOffset cell) slots)) place data) ∧
    ∀ (k : Nat) slot, slots[k]? = some slot →
      StoredAt (perform contents (slotWrites (cellOffset cell) slots)) (cellOffset (cell + k))
        slot.toBytes := by
  induction slots generalizing contents cell with
  | nil => exact ⟨fun h _ => h, fun k slot hget => by cases hget⟩
  | cons slot rest ih =>
      have hend : cellOffset cell + slot.toBytes.length = cellOffset (cell + 1) := by
        rw [slot.length_toBytes, cellOffset_succ]
      have hperform : perform contents (slotWrites (cellOffset cell) (slot :: rest)) =
          perform (writeAt 0 contents (cellOffset cell) slot.toBytes)
            (slotWrites (cellOffset (cell + 1)) rest) := by
        rw [slotWrites, perform_cons, cellOffset_succ]
      have hcount : cell + (slot :: rest).length = cell + 1 + rest.length := by
        rw [List.length_cons, Nat.add_assoc, Nat.add_comm 1]
      rw [hperform, hcount]
      obtain ⟨hkept, hwritten⟩ :=
        ih (writeAt 0 contents (cellOffset cell) slot.toBytes) (cell + 1)
      have hgrows : cellOffset (cell + 1) ≤ cellOffset (cell + 1 + rest.length) :=
        cellOffset_mono (Nat.le_add_right _ _)
      refine ⟨fun {place data} hstored hapart => ?_, fun k other hget => ?_⟩
      · refine hkept (hstored.writeAt (hapart.imp_right fun hge => ?_)) (hapart.imp_left fun hle => ?_)
        · exact hend.le.trans (hgrows.trans hge)
        · exact hle.trans (cellOffset_mono (Nat.le_succ _))
      · cases k with
        | zero =>
            cases hget
            exact hkept (storedAt_writeAt contents _ _) (.inl hend.le)
        | succ k =>
            have hstored := hwritten k other hget
            rwa [Nat.add_right_comm] at hstored

theorem Holds.nextBuffer_eq (h : Holds contents active slots) (hactive : active ≤ 1) :
    nextBuffer contents = some (1 - active) := by
  have hbuffer : active < 256 ^ 4 := hactive.trans_lt (by decide)
  rw [nextBuffer, readLe_drop h.activeStored hbuffer]
  exact if_pos hactive

section

variable (h : Holds contents active old) (hactive : active ≤ 1)
include h hactive

/-- While the slots are written, the active buffer is as its reader sees it. -/
theorem Holds.writeSlots (next : Nat) (new : List RatchetSlot) :
    Holds (perform contents (slotWrites (cellOffset (1024 * next)) new)) active
      (overlaid (1024 * active) (1024 * next) old new) := by
  obtain ⟨hkept, hwritten⟩ := perform_slotWrites contents (1024 * next) new
  have hheader : ∀ {place n : Nat}, place + 4 ≤ 16 → StoredAt contents place (toLe 4 n) →
      StoredAt (perform contents (slotWrites (cellOffset (1024 * next)) new)) place (toLe 4 n) :=
    fun hle hstored => hkept hstored (.inl (by
      rw [length_toLe]
      exact hle.trans (Nat.le_add_right _ _)))
  obtain ⟨count, hidle⟩ := h.idleStored
  refine ⟨hheader (by decide) h.activeStored, ?_, ⟨count, hheader ?_ hidle⟩, fun i slot hget => ?_⟩
  · rw [length_overlaid]
    refine hheader ?_ h.countStored
    rw [countOffset]
    omega
  · rw [countOffset]
    omega
  · have hcell := overlaid_cases (1024 * active) (1024 * next) old new i new.length
    rw [List.take_length, hget] at hcell
    obtain ⟨k, -, -, -, heq, hslot⟩ | ⟨hslot, hbeyond⟩ := hcell
    · rw [heq]
      exact hwritten k slot hslot.symm
    · have hlt : i < old.length := (List.getElem?_eq_some_iff.mp hslot.symm).1
      refine hkept (h.slotsStored i slot hslot.symm) ?_
      rw [slot.length_toBytes, cellOffset_succ]
      by_cases hbefore : 1024 * active + i < 1024 * next
      · exact .inl (cellOffset_mono hbefore)
      · refine .inr (cellOffset_mono ?_)
        by_contra hwithin
        have hoverlap := hbeyond (1024 * active + i - 1024 * next) (by omega) (by omega) hlt
        omega

/-- The counts of the two buffers lie side by side. -/
theorem Holds.writeCount (count : Nat) :
    Holds (writeAt 0 contents (countOffset (1 - active)) (toLe 4 count)) active old := by
  have hbuffers : active = 0 ∨ active = 1 := by omega
  have hkept : ∀ {place : Nat} {data : Bytes}, StoredAt contents place data →
      place + data.length ≤ countOffset (1 - active) ∨ countOffset (1 - active) + 4 ≤ place →
        StoredAt (writeAt 0 contents (countOffset (1 - active)) (toLe 4 count)) place data :=
    fun hstored hapart => hstored.writeAt (by rwa [length_toLe])
  refine ⟨hkept h.activeStored ?_, hkept h.countStored ?_, ⟨count, storedAt_writeAt _ _ _⟩,
    fun i slot hget => hkept (h.slotsStored i slot hget) ?_⟩
  · rw [length_toLe, countOffset]
    omega
  · rw [length_toLe, countOffset, countOffset]
    omega
  · refine .inr ?_
    rw [countOffset, cellOffset]
    omega

/-- The last write makes the other buffer the active one. -/
theorem Holds.activate (hslots : ∀ (i : Nat) slot, new[i]? = some slot →
      StoredAt contents (cellOffset (1024 * (1 - active) + i)) slot.toBytes)
    (hcount : StoredAt contents (countOffset (1 - active)) (toLe 4 new.length)) :
    Holds (writeAt 0 contents 4 (toLe 4 (1 - active))) (1 - active) new := by
  have hkept : ∀ {place : Nat} {data : Bytes}, StoredAt contents place data → 8 ≤ place →
      StoredAt (writeAt 0 contents 4 (toLe 4 (1 - active))) place data :=
    fun hstored hle => hstored.writeAt (.inr (by rwa [length_toLe]))
  have hback : 1 - (1 - active) = active := by omega
  refine ⟨storedAt_writeAt _ _ _, hkept hcount (Nat.le_add_right _ _), ⟨old.length, ?_⟩,
    fun i slot hget => hkept (hslots i slot hget) ?_⟩
  · rw [hback]
    exact hkept h.countStored (Nat.le_add_right _ _)
  · rw [cellOffset]
    omega

/-- What a stop between two writes leaves: up to the last write the list of the active buffer as
its reader sees it, and then the new list. -/
theorem Holds.stopped_spec (new : List RatchetSlot) (stop : Nat) :
    ∃ after, stopped contents new stop = some after ∧
      (stop ≤ new.length + 1 →
        Holds after active (overlaid (1024 * active) (1024 * (1 - active)) old (new.take stop))) ∧
      (new.length + 2 ≤ stop → Holds after (1 - active) new) := by
  have hnext : 1 - active ≤ 1 := Nat.sub_le _ _
  have hoffset : 16 + (1 - active) * 1024 * RatchetSlot.size = cellOffset (1024 * (1 - active)) := by
    rw [cellOffset, Nat.mul_comm 1024]
  have hcountOffset : (if 1 - active = 0 then 8 else 12) = countOffset (1 - active) := by
    rw [countOffset]
    split <;> omega
  have hlength := length_slotWrites (cellOffset (1024 * (1 - active))) new
  refine ⟨_, by rw [stopped, h.nextBuffer_eq hactive, Option.map_some], ?_⟩
  rw [saveWrites, hoffset, hcountOffset, List.take_append, hlength, take_slotWrites, perform_append]
  have hslots := h.writeSlots hactive (1 - active) (new.take stop)
  obtain ⟨hkept, hwritten⟩ := perform_slotWrites contents (1024 * (1 - active)) (new.take stop)
  generalize perform contents (slotWrites (cellOffset (1024 * (1 - active)))
    (new.take stop)) = filled at hslots hkept hwritten ⊢
  constructor
  · intro hle
    by_cases hfirst : stop ≤ new.length
    · rw [Nat.sub_eq_zero_of_le hfirst]
      exact hslots
    · have hone : stop - new.length = 1 := by omega
      rw [hone]
      exact hslots.writeCount hactive new.length
  · intro hge
    have hall : stop - new.length = stop - new.length - 2 + 1 + 1 := by omega
    rw [List.take_of_length_le (by omega)] at hwritten
    rw [hall, List.take_succ_cons, List.take_succ_cons, List.take_nil, perform_cons, perform_cons]
    refine (hslots.writeCount hactive new.length).activate hactive (fun i slot hget => ?_)
      (storedAt_writeAt _ _ _)
    refine (hwritten i slot hget).writeAt (.inr ?_)
    rw [length_toLe, countOffset, cellOffset]
    omega

end

theorem save_eq_stopped (contents : Bytes) (new : List RatchetSlot) :
    save contents new = stopped contents new (new.length + 2) := by
  have hall : ∀ next, (saveWrites next new).take (new.length + 2) = saveWrites next new := by
    intro next
    refine List.take_of_length_le (Nat.le_of_eq ?_)
    rw [saveWrites, List.length_append, length_slotWrites]
    rfl
  simp only [save, stopped, hall]

/-! ## Sequences of saves -/

theorem holds_openFile : Holds (openFile []) 0 [] where
  activeStored := by unfold StoredAt; decide
  countStored := by unfold StoredAt; decide
  idleStored := ⟨0, by unfold StoredAt; decide⟩
  slotsStored _ _ hget := by cases hget

/-- After complete saves the last list is there, and the buffers have taken turns. -/
theorem holds_saved (lists : List (List RatchetSlot)) :
    ∃ contents, saved lists = some contents ∧
      Holds contents (lists.length % 2) (lists.getLast?.getD []) := by
  induction lists using List.reverseRecOn with
  | nil => exact ⟨_, rfl, holds_openFile⟩
  | append_singleton lists new ih =>
      obtain ⟨contents, hsaved, hholds⟩ := ih
      have hactive : lists.length % 2 ≤ 1 := by omega
      have hturn : (lists ++ [new]).length % 2 = 1 - lists.length % 2 := by
        rw [List.length_append, List.length_singleton]
        omega
      obtain ⟨after, hstopped, -, hdone⟩ := hholds.stopped_spec hactive new (new.length + 2)
      refine ⟨after, ?_, ?_⟩
      · unfold saved at hsaved ⊢
        rw [List.foldlM_append, hsaved]
        simp only [Option.bind_eq_bind, Option.bind_some, List.foldlM_cons, List.foldlM_nil,
          save_eq_stopped, hstopped]
        rfl
      · rw [hturn, List.getLast?_concat, Option.getD_some]
        exact hdone le_rfl

theorem Storable.overlaid (hold : Storable old) (hnew : Storable new) (source target count : Nat) :
    Storable (overlaid source target old (new.take count)) := by
  refine ⟨(length_overlaid source target old _).trans_le hold.length_le, fun slot hmem => ?_⟩
  obtain ⟨i, hget⟩ := List.mem_iff_getElem?.mp hmem
  have hcell := overlaid_cases source target old new i count
  rw [hget] at hcell
  obtain ⟨k, -, -, -, -, hslot⟩ | ⟨hslot, -⟩ := hcell
  · exact hnew.fits slot (List.mem_of_getElem? hslot.symm)
  · exact hold.fits slot (List.mem_of_getElem? hslot.symm)

/-- What is read after a stop. -/
theorem load_stopped (h : Holds contents active old) (hactive : active ≤ 1) (hold : Storable old)
    (hnew : Storable new) (stop : Nat) :
    (stopped contents new stop).bind load = some (if stop ≤ new.length + 1 then
      overlaid (1024 * active) (1024 * (1 - active)) old (new.take stop) else new) := by
  obtain ⟨after, hstopped, hbefore, hdone⟩ := h.stopped_spec hactive new stop
  rw [hstopped, Option.bind_some]
  split
  next hle => exact (hbefore hle).load_eq hactive (hold.overlaid hnew _ _ _)
  next hgt => exact (hdone (by omega)).load_eq (Nat.sub_le _ _) hnew

/-- A save that runs to its end is read back, whatever it overwrites. A stop on the way shows the
list of the last complete save or the new one just when the new slots spare the active buffer, or
the two lists are almost alike. -/
theorem load_stopped_iff (lists : List (List RatchetSlot)) (new : List RatchetSlot)
    (hstorable : ∀ slots ∈ new :: lists, Storable slots) :
    let old := lists.getLast?.getD []
    let source := 1024 * (lists.length % 2)
    let target := 1024 * (1 - lists.length % 2)
    ∃ contents, saved lists = some contents ∧ (save contents new).bind load = some new ∧
      ((∀ stop, (stopped contents new stop).bind load = some old ∨
          (stopped contents new stop).bind load = some new) ↔
        Spared source target old new ∨ Alike source target old new) := by
  intro old source target
  obtain ⟨contents, hsaved, hholds⟩ := holds_saved lists
  have hactive : lists.length % 2 ≤ 1 := by omega
  have hnew : Storable new := hstorable new List.mem_cons_self
  have hold : Storable old := by
    dsimp only [old]
    cases hlast : lists.getLast? with
    | none => exact ⟨Nat.zero_le _, nofun⟩
    | some last => exact hstorable last (List.mem_cons_of_mem _ (List.mem_of_getLast? hlast))
  have hload := fun stop => load_stopped hholds hactive hold hnew stop
  refine ⟨contents, hsaved, ?_, ?_⟩
  · rw [save_eq_stopped, hload, if_neg (by omega)]
  · rw [← overlaid_iff]
    simp only [hload, Option.some.injEq]
    constructor
    · intro h count hle
      have hshown := h count
      rwa [if_pos (by omega)] at hshown
    · intro h stop
      split
      next hle =>
        by_cases hfirst : stop ≤ new.length
        · exact h stop hfirst
        · have hall := h new.length le_rfl
          rw [List.take_length] at hall
          rwa [List.take_of_length_le (Nat.le_of_not_le hfirst)]
      next => exact .inr rfl

/-- The slot of a device. -/
def slotOf (device : Nat) : RatchetSlot :=
  ⟨⟨BitVec.ofNat 256 device⟩, ⟨BitVec.ofNat 256 device⟩, device, 0⟩

theorem storable_map_slotOf (devices : List Nat) (hlength : devices.length ≤ maxGroupDevices)
    (hdevices : ∀ device ∈ devices, device < 2 ^ 64) : Storable (devices.map slotOf) := by
  refine ⟨by rwa [List.length_map], fun slot hmem => ?_⟩
  obtain ⟨device, hdevice, rfl⟩ := List.mem_map.mp hmem
  exact ⟨hdevices device hdevice, Nat.two_pow_pos 64⟩

theorem load_stopped_three : ∃ contents, saved [[slotOf 7]] = some contents ∧
    (save contents [slotOf 8, slotOf 9]).bind load = some [slotOf 8, slotOf 9] ∧
    ((∀ stop, (stopped contents [slotOf 8, slotOf 9] stop).bind load = some [slotOf 7] ∨
        (stopped contents [slotOf 8, slotOf 9] stop).bind load = some [slotOf 8, slotOf 9]) ↔
      Spared 1024 0 [slotOf 7] [slotOf 8, slotOf 9] ∨
        Alike 1024 0 [slotOf 7] [slotOf 8, slotOf 9]) :=
  load_stopped_iff [[slotOf 7]] [slotOf 8, slotOf 9] fun slots hmem => by
    rcases List.mem_cons.mp hmem with rfl | hmem
    · exact storable_map_slotOf [8, 9] (by decide) (by decide)
    · exact List.mem_singleton.mp hmem ▸ storable_map_slotOf [7] (by decide) (by decide)

/-- The slots of 1025 devices reach into the second buffer: the list of one device is gone before
the header names the new one. -/
theorem stopped_reads_neither :
    let many := (List.range 1025).map slotOf
    Storable [slotOf 0] ∧ Storable many ∧ ∃ contents, saved [[slotOf 0]] = some contents ∧
      (stopped contents many 1025).bind load = some [slotOf 1024] ∧
      [slotOf 1024] ≠ [slotOf 0] ∧ [slotOf 1024] ≠ many := by
  intro many
  have hone : Storable [slotOf 0] := storable_map_slotOf [0] (by decide) (by decide)
  have hmany : Storable many := by
    refine storable_map_slotOf _ (by rw [List.length_range]; decide) fun device hdevice => ?_
    exact (List.mem_range.mp hdevice).trans (by decide)
  have hlength : many.length = 1025 := by rw [List.length_map, List.length_range]
  obtain ⟨contents, hsaved, hholds⟩ := holds_saved [[slotOf 0]]
  refine ⟨hone, hmany, contents, hsaved, ?_, by decide, fun heq => ?_⟩
  · rw [load_stopped hholds le_rfl hone hmany, if_pos (by omega),
      List.take_of_length_le (by omega)]
    have hlast : many[1024]? = some (slotOf 1024) := by
      rw [List.getElem?_map, List.getElem?_range (by decide), Option.map_some]
    simp [overlaid, hlast]
  · rw [← heq] at hlength
    cases hlength

end RatchetFile

end MerkleTox.Fs
