import MerkleTox.Proto.Derive

/-! # Self-delimiting forms

What the implementations of the codec traits promise about their bytes, for each container
in terms of what its parts promise. The bytes of a value are read back whatever follows
them (`Reads`); a flat form of a fixed size is read back in the same way (`Flat`), and one
of a variable size when it is all that is left (`Trails`).
-/

namespace MerkleTox.Proto

open Library

variable {n rounds : Nat} {out bytes : Bytes}

/-- What is written is read back, and what follows it is left. -/
def Reads {α : Type} (read : Reader α) (encodes : α → Bytes → Prop) : Prop :=
  ∀ value bytes, encodes value bytes → ∀ rest, read (bytes ++ rest) = some (value, rest)

namespace ToxProto

variable {α β : Type}

/-- The flat form of a type with a size has this size and is read back. -/
structure Flat (proto : ToxProto α) (size : Nat) : Prop where
  len : ∀ value, proto.flatLen value = some size
  back : ∀ value, ∃ data, proto.serializeFlat value = some data ∧ data.length = size ∧
    ∀ rest, proto.deserializeFlat (data ++ rest) = some (value, rest)
  takes : ∀ {input value rest}, proto.deserializeFlat input = some (value, rest) →
    size + rest.length ≤ input.length

/-- The flat form of a value as the last one of its byte string. -/
def Trails (proto : ToxProto α) (value : α) : Prop :=
  ∃ data rest, proto.serializeFlat value = some data ∧
    proto.flatLen value = some data.length ∧ proto.deserializeFlat data = some (value, rest)

theorem Flat.trails {proto : ToxProto α} {size : Nat} (h : proto.Flat size) (value : α) :
    proto.Trails value := by
  obtain ⟨data, hdata, hlen, hback⟩ := h.back value
  refine ⟨data, [], hdata, ?_, ?_⟩
  · rw [hlen, h.len]
  · have hread := hback []
    rwa [List.append_nil] at hread

end ToxProto

/-! ## Primitive types -/

section Lengths

variable (rest : Bytes)

theorem readBinLen_writeBinLen (len : Nat) :
    readBinLen (writeBinLen len ++ rest) = some (len % 2 ^ 32, rest) := by
  have hlen : len % 2 ^ 32 < 2 ^ 32 := Nat.mod_lt _ (by norm_num)
  unfold writeBinLen
  generalize len % 2 ^ 32 = short at hlen
  dsimp only
  split
  next h => simp [readBinLen, readMarker_cons, Marker.ofByte, readBe_toBe_append 1 h]
  next =>
    split
    next h => simp [readBinLen, readMarker_cons, Marker.ofByte, readBe_toBe_append 2 h]
    next => simp [readBinLen, readMarker_cons, Marker.ofByte, readBe_toBe_append 4 hlen]

theorem ofByte_fixMap : ∀ len < 16, Marker.ofByte (UInt8.ofNat (0x80 + len)) = .fixMap len := by
  decide

theorem readMapLen_writeMapLen (len : Nat) :
    readMapLen (writeMapLen len ++ rest) = some (len % 2 ^ 32, rest) := by
  have hlen : len % 2 ^ 32 < 2 ^ 32 := Nat.mod_lt _ (by norm_num)
  unfold writeMapLen
  generalize len % 2 ^ 32 = short at hlen
  dsimp only
  split
  next h =>
    rw [List.singleton_append, readMapLen, readMarker_cons, ofByte_fixMap _ h]
    rfl
  next =>
    split
    next h => simp [readMapLen, readMarker_cons, Marker.ofByte, readBe_toBe_append 2 h]
    next => simp [readMapLen, readMarker_cons, Marker.ofByte, readBe_toBe_append 4 hlen]

theorem writeBin_eq (data : Bytes) : writeBin data = writeBinLen data.length ++ data := rfl

theorem length_readExact {input data : Bytes} (hread : readExact n input = some (data, out)) :
    data.length = n ∧ input = data ++ out := by
  unfold readExact at hread
  split at hread
  next hlen =>
    cases hread
    exact ⟨List.length_take_of_le hlen, (List.take_append_drop n input).symm⟩
  next => cases hread

theorem length_readBe {width value : Nat} {input : Bytes}
    (hread : readBe width input = some (value, out)) : width + out.length = input.length := by
  obtain ⟨⟨data, tail⟩, hdata, heq⟩ := Option.map_eq_some_iff.mp hread
  cases heq
  obtain ⟨hlen, rfl⟩ := length_readExact hdata
  rw [List.length_append, hlen]

end Lengths

namespace ToxProto

variable {width : Nat}

theorem toNat_lt_pow (value : BitVec (8 * width)) : value.toNat < 256 ^ width := by
  have hlt := value.isLt
  rwa [pow_mul] at hlt

/-- The flat form of a number: its bytes, the highest first. -/
theorem flat_be {proto : ToxProto (BitVec (8 * width))}
    (hlen : ∀ value, proto.flatLen value = some width)
    (hwrite : ∀ value, proto.serializeFlat value = some (toBe width value.toNat))
    (hread : ∀ input, proto.deserializeFlat input =
      (readBe width input).map fun (value, rest) => (BitVec.ofNat _ value, rest)) :
    proto.Flat width where
  len := hlen
  back value := by
    refine ⟨_, hwrite value, length_toBe width _, fun rest => ?_⟩
    rw [hread, readBe_toBe_append width (toNat_lt_pow value)]
    simp
  takes := by
    intro input value rest hflat
    rw [hread, Option.map_eq_some_iff] at hflat
    obtain ⟨⟨found, out⟩, hfound, heq⟩ := hflat
    cases heq
    exact (length_readBe hfound).le

theorem reads_unsigned (hwidth : width ≤ 8) (isByteLike : Bool) :
    Reads (unsigned width isByteLike).deserialize
      fun value bytes => (unsigned width isByteLike).serialize value = some bytes := by
  rintro value bytes ⟨⟩ rest
  have hpow : 2 ^ (8 * width) ≤ 2 ^ 64 := Nat.pow_le_pow_right (by decide) (by omega)
  have hlt := value.isLt
  have hcast : (value.toNat : Int) < 2 ^ (8 * width) := by exact_mod_cast hlt
  simp [unsigned, readInt_writeUint rest (hlt.trans_le hpow), hcast]

theorem reads_signed (hwidth : width ≤ 8) :
    Reads (signed width).deserialize
      fun value bytes => (signed width).serialize value = some bytes := by
  rintro value bytes ⟨⟩ rest
  have hlow : -2 ^ (8 * width) ≤ 2 * value.toInt := value.le_two_mul_toInt
  have hhigh : 2 * value.toInt < 2 ^ (8 * width) := value.two_mul_toInt_lt
  have hpow : (2 : Int) ^ (8 * width) ≤ 2 ^ 64 := pow_le_pow_right₀ (by decide) (by omega)
  obtain ⟨bound, hbound⟩ : ∃ bound, bound = (2 : Int) ^ (8 * width) := ⟨_, rfl⟩
  rw [← hbound] at hlow hhigh hpow
  have hread : readInt (writeSint value.toInt ++ rest) = some (value.toInt, rest) :=
    readInt_writeSint rest (by omega) (by omega)
  simp only [signed, hread, Option.bind_eq_bind, Option.bind_some, ← hbound]
  rw [if_pos ⟨hlow, hhigh⟩, BitVec.ofInt_toInt]

/-- Sixteen bytes in reverse order give the number back. -/
theorem fromBe_reverse (value : BitVec 128) :
    BitVec.ofNat 128 (fromBe (toBe 16 value.toNat).reverse.reverse) = value := by
  have hvalue : value.toNat < 256 ^ 16 := @toNat_lt_pow 16 value
  rw [List.reverse_reverse, fromBe_toBe 16 hvalue, BitVec.ofNat_toNat, BitVec.setWidth_eq]

theorem length_reverse_toBe (value : BitVec 128) : (toBe 16 value.toNat).reverse.length = 16 := by
  rw [List.length_reverse, length_toBe]

theorem reads_int128 :
    Reads int128.deserialize fun value bytes => int128.serialize value = some bytes := by
  intro value bytes hwrite rest
  have hbytes : writeBin (toBe 16 value.toNat).reverse = bytes := Option.some.inj hwrite
  have hlen := length_reverse_toBe value
  have hback := fromBe_reverse value
  rw [← hbytes, writeBin_eq, List.append_assoc]
  generalize (toBe 16 value.toNat).reverse = data at hlen hback ⊢
  have hexact := readExact_append data rest
  rw [hlen] at hexact ⊢
  simp only [int128, readBinLen_writeBinLen, Option.bind_eq_bind, Option.bind_some, hexact, hback]
  rfl

theorem flat_int128 : int128.Flat 16 where
  len _ := rfl
  back value := by
    have hlen := length_reverse_toBe value
    have hback := fromBe_reverse value
    refine ⟨(toBe 16 value.toNat).reverse, rfl, hlen, fun rest => ?_⟩
    generalize (toBe 16 value.toNat).reverse = data at hlen hback ⊢
    have hexact := readExact_append data rest
    rw [hlen] at hexact
    simp only [int128, Option.bind_eq_bind, Option.bind_some, hexact, hback]
  takes := by
    intro input value rest hflat
    simp only [int128] at hflat
    obtain ⟨⟨data, out⟩, hdata, heq⟩ := Option.bind_eq_some_iff.mp hflat
    cases heq
    obtain ⟨hlen, rfl⟩ := length_readExact hdata
    rw [List.length_append, hlen]

theorem reads_float {marker : UInt8} (hmarker : Marker.ofByte marker = .float width) :
    Reads (float width marker).deserialize
      fun value bytes => (float width marker).serialize value = some bytes := by
  rintro value bytes ⟨⟩ rest
  have hread := readBe_toBe_append width (toNat_lt_pow value) rest
  simp [float, readMarker_cons, hmarker, hread]

theorem charFromU32_toNat (value : Char) : charFromU32 value.toNat = some value := by
  have hvalid : value.toNat.isValidChar := value.valid
  rw [charFromU32, dif_pos hvalid]
  rfl

theorem char_lt (value : Char) : value.toNat < 2 ^ 32 := value.val.toNat_lt

theorem reads_char :
    Reads char.deserialize fun value bytes => char.serialize value = some bytes := by
  rintro value bytes ⟨⟩ rest
  have hlt : value.toNat < 4294967296 := char_lt value
  have hread : readInt (writeUint value.toNat ++ rest) = some ((value.toNat : Int), rest) :=
    readInt_writeUint rest (by omega)
  simp [char, hread, hlt, charFromU32_toNat]

theorem flat_char : char.Flat 4 where
  len _ := rfl
  back value := by
    refine ⟨_, rfl, length_toBe 4 _, fun rest => ?_⟩
    have hread := readBe_toBe_append 4 (n := value.toNat) (char_lt value) rest
    simp [char, hread, charFromU32_toNat]
  takes := by
    intro input value rest hflat
    simp only [char] at hflat
    obtain ⟨⟨found, out⟩, hfound, hflat⟩ := Option.bind_eq_some_iff.mp hflat
    obtain ⟨value, -, heq⟩ := Option.bind_eq_some_iff.mp hflat
    cases heq
    exact (length_readBe hfound).le

theorem reads_bool :
    Reads bool.deserialize fun value bytes => bool.serialize value = some bytes := by
  rintro value bytes ⟨⟩ rest
  cases value <;> rfl

theorem flat_bool : bool.Flat 1 where
  len _ := rfl
  back value := by
    refine ⟨_, rfl, rfl, fun rest => ?_⟩
    cases value <;> rfl
  takes := by
    intro input value rest hflat
    cases input with
    | nil => cases hflat
    | cons byte input =>
        cases hflat
        exact (Nat.add_comm 1 _).le

theorem reads_string :
    Reads string.deserialize fun value bytes =>
      string.serialize value = some bytes ∧ (utf8 value).length < 2 ^ 32 := by
  rintro value bytes ⟨⟨⟩, hlen⟩ rest
  exact readStr_writeStr rest hlen

theorem trails_string (value : String) : string.Trails value := by
  refine ⟨_, [], rfl, rfl, ?_⟩
  simp [string, fromUTF8?_utf8]

end ToxProto

/-! ## Sequences -/

/-- What is written of the values that fit is read back, and all values that are read back
fit. The encodings of a value may be more than the one that is written. -/
structure Faithful {α : Type} (write : α → Option Bytes) (read : Reader α) (fits : α → Prop)
    (encodes : α → Bytes → Prop) : Prop where
  reads : Reads read encodes
  written : ∀ value, fits value → ∃ bytes, write value = some bytes ∧ encodes value bytes
  returned : ∀ {value bytes rest out}, write value = some bytes →
    read (bytes ++ rest) = some (value, out) → fits value

/-- The encodings of the values one after the other. -/
inductive EncodesEach {α : Type} (encodes : α → Bytes → Prop) : List α → Bytes → Prop
  | nil : EncodesEach encodes [] []
  | cons {value : α} {values : List α} {first others : Bytes} (hfirst : encodes value first)
      (hothers : EncodesEach encodes values others) :
      EncodesEach encodes (value :: values) (first ++ others)

section Sequences

variable {α : Type} {write : α → Option Bytes} {read : Reader α} {fits : α → Prop}
  {encodes : α → Bytes → Prop}
variable {values : List α} {item : ToxProto α}

theorem readItems_append (h : Reads read encodes) (heach : EncodesEach encodes values bytes)
    (rest : Bytes) :
    readItems read values.length (bytes ++ rest) = some (values, rest) := by
  induction heach with
  | nil => rfl
  | @cons value values first others hfirst hothers ih =>
      rw [List.append_assoc, List.length_cons, readItems, h value first hfirst]
      simp [ih]

variable {input rest : Bytes} {size : Nat}

theorem length_readItems (hread : readItems read n input = some (values, rest)) :
    values.length = n := by
  induction n generalizing input values with
  | zero =>
      cases hread
      rfl
  | succ n ih =>
      rw [readItems] at hread
      obtain ⟨⟨value, middle⟩, -, hread⟩ := Option.bind_eq_some_iff.mp hread
      obtain ⟨⟨others, last⟩, hothers, heq⟩ := Option.bind_eq_some_iff.mp hread
      cases heq
      rw [List.length_cons, ih hothers]

theorem Faithful.written_each (h : Faithful write read fits encodes)
    (hvalues : ∀ value ∈ values, fits value) :
    ∃ bytes, writeEach write values = some bytes ∧ EncodesEach encodes values bytes := by
  induction values with
  | nil => exact ⟨[], rfl, .nil⟩
  | cons value values ih =>
      obtain ⟨first, hfirst, hencodes⟩ := h.written value (hvalues value List.mem_cons_self)
      obtain ⟨others, hothers, heach⟩ :=
        ih fun other hmem => hvalues other (List.mem_cons_of_mem _ hmem)
      refine ⟨first ++ others, ?_, .cons hencodes heach⟩
      simp [writeEach, hfirst, hothers]

/-- A value that comes back fits, and was read where it was written. -/
theorem Faithful.settled (h : Faithful write read fits encodes) {value : α} {rest : Bytes}
    (hwrite : write value = some bytes) (hread : read (bytes ++ rest) = some (value, out)) :
    fits value ∧ out = rest := by
  have hvalue := h.returned hwrite hread
  obtain ⟨again, hagain, hencodes⟩ := h.written value hvalue
  rw [hwrite, Option.some.injEq] at hagain
  subst hagain
  rw [h.reads _ _ hencodes, Option.some.injEq, Prod.mk.injEq] at hread
  exact ⟨hvalue, hread.2.symm⟩

/-- Values that come back together have come back one by one. -/
theorem Faithful.returned_each (h : Faithful write read fits encodes) {rest : Bytes}
    (hwrite : writeEach write values = some bytes)
    (hread : readItems read values.length (bytes ++ rest) = some (values, out)) :
    ∀ value ∈ values, fits value := by
  induction values generalizing bytes with
  | nil => simp
  | cons value values ih =>
      rw [writeEach] at hwrite
      obtain ⟨first, hfirst, hwrite⟩ := Option.bind_eq_some_iff.mp hwrite
      obtain ⟨others, hothers, heq⟩ := Option.bind_eq_some_iff.mp hwrite
      cases heq
      rw [List.length_cons, readItems, List.append_assoc] at hread
      obtain ⟨⟨found, middle⟩, hfound, hread⟩ := Option.bind_eq_some_iff.mp hread
      obtain ⟨⟨more, last⟩, hmore, heq⟩ := Option.bind_eq_some_iff.mp hread
      cases heq
      -- the first value fits, so that the others are read where they were written
      obtain ⟨hvalue, rfl⟩ := h.settled hfirst hfound
      exact List.forall_mem_cons.mpr ⟨hvalue, ih hothers hmore⟩

/-- Values of one byte are written as they are in memory. -/
theorem ToxProto.Flat.memory (h : item.Flat 1) (values : List α) :
    ∃ data, writeEach item.serializeFlat values = some data ∧ data.length = values.length ∧
      fromMemory item.deserializeFlat data = some values := by
  induction values with
  | nil => exact ⟨[], rfl, rfl, rfl⟩
  | cons value values ih =>
      obtain ⟨first, hfirst, hlen, hback⟩ := h.back value
      obtain ⟨others, hothers, hlength, hmemory⟩ := ih
      obtain ⟨byte, rfl⟩ := List.length_eq_one_iff.mp hlen
      have hbyte := hback []
      rw [List.append_nil] at hbyte
      refine ⟨byte :: others, ?_, ?_, ?_⟩
      · simp [writeEach, hfirst, hothers]
      · rw [List.length_cons, List.length_cons, hlength]
      · unfold fromMemory at hmemory ⊢
        simp [hbyte, hmemory]

theorem length_fromMemory (hread : fromMemory read bytes = some values) :
    values.length = bytes.length := by
  induction bytes generalizing values with
  | nil =>
      cases hread
      rfl
  | cons byte bytes ih =>
      unfold fromMemory at hread ih
      rw [List.mapM_cons] at hread
      obtain ⟨value, -, hread⟩ := Option.bind_eq_some_iff.mp hread
      obtain ⟨others, hothers, heq⟩ := Option.bind_eq_some_iff.mp hread
      cases heq
      rw [List.length_cons, List.length_cons, ih hothers]

/-- The items of a fixed size up to the end of the bytes. -/
theorem ToxProto.Flat.readWhile (h : item.Flat size) (hpos : 0 < size) (values : List α) :
    ∃ data, writeEach item.serializeFlat values = some data ∧
      data.length = values.length * size ∧
      ∀ rounds, values.length < rounds →
        Proto.readWhile item.deserializeFlat rounds data = some (values, []) := by
  induction values with
  | nil =>
      refine ⟨[], rfl, (Nat.zero_mul _).symm, fun rounds hrounds => ?_⟩
      obtain ⟨fewer, rfl⟩ : ∃ fewer, rounds = fewer + 1 := ⟨rounds - 1, by omega⟩
      have hend : item.deserializeFlat [] = none := by
        rw [Option.eq_none_iff_forall_ne_some]
        rintro ⟨value, rest⟩ hread
        have htakes := h.takes hread
        rw [List.length_nil] at htakes
        omega
      rw [Proto.readWhile, hend]
  | cons value values ih =>
      obtain ⟨first, hfirst, hlen, hback⟩ := h.back value
      obtain ⟨others, hothers, hlength, hread⟩ := ih
      refine ⟨first ++ others, ?_, ?_, fun rounds hrounds => ?_⟩
      · simp [writeEach, hfirst, hothers]
      · rw [List.length_append, List.length_cons, Nat.succ_mul, hlen, hlength, Nat.add_comm]
      · obtain ⟨fewer, rfl⟩ : ∃ fewer, rounds = fewer + 1 := ⟨rounds - 1, by omega⟩
        rw [List.length_cons] at hrounds
        rw [Proto.readWhile, hback]
        simp [hread fewer (by omega)]

theorem ToxProto.Flat.length_readWhile (h : item.Flat size)
    (hread : Proto.readWhile item.deserializeFlat rounds input = some (values, rest)) :
    values.length * size ≤ input.length := by
  induction rounds generalizing input values with
  | zero => cases hread
  | succ rounds ih =>
      rw [Proto.readWhile] at hread
      split at hread
      next =>
        cases hread
        simp
      next value middle hvalue =>
        obtain ⟨⟨others, last⟩, hothers, heq⟩ := Option.map_eq_some_iff.mp hread
        cases heq
        have htakes := h.takes hvalue
        have hrest := ih hothers
        rw [List.length_cons, Nat.succ_mul]
        omega

theorem ToxProto.Flat.items (h : item.Flat size) (values : List α) :
    ∃ data, writeEach item.serializeFlat values = some data ∧
      data.length = size * values.length ∧
      ∀ rest, readItems item.deserializeFlat values.length (data ++ rest) =
        some (values, rest) := by
  induction values with
  | nil => exact ⟨[], rfl, rfl, fun rest => rfl⟩
  | cons value values ih =>
      obtain ⟨first, hfirst, hlen, hback⟩ := h.back value
      obtain ⟨others, hothers, hlength, hread⟩ := ih
      refine ⟨first ++ others, ?_, ?_, fun rest => ?_⟩
      · simp [writeEach, hfirst, hothers]
      · rw [List.length_append, List.length_cons, Nat.mul_succ, hlen, hlength, Nat.add_comm]
      · rw [List.append_assoc, List.length_cons, readItems, hback]
        simp [hread]

theorem ToxProto.Flat.takes_items (h : item.Flat size)
    (hread : readItems item.deserializeFlat n input = some (values, rest)) :
    size * n + rest.length ≤ input.length := by
  induction n generalizing input values with
  | zero =>
      cases hread
      simp
  | succ n ih =>
      rw [readItems] at hread
      obtain ⟨⟨value, middle⟩, hvalue, hread⟩ := Option.bind_eq_some_iff.mp hread
      obtain ⟨⟨others, last⟩, hothers, heq⟩ := Option.bind_eq_some_iff.mp hread
      cases heq
      have htakes := h.takes hvalue
      have hrest := ih hothers
      rw [Nat.mul_succ]
      omega

end Sequences

end MerkleTox.Proto
