import Mathlib.Tactic.Positivity
import MerkleTox.Proto.MessagePack

/-! # Codecs

A codec is a way to write the values of a type and to read them, with the values that are read
back whatever follows them. Codecs of fields make up those of structures and of the variants
of an enumeration, as the derive macros of `tox_proto` put them together.
-/

namespace MerkleTox.Proto

variable {value : Int} {width len n inner tag : Nat} {input data out : Bytes}

/-! ## Integers and strings -/

/-- `rmp::encode::write_uint`. -/
def writeUint (value : Nat) : Bytes :=
  if value < 128 then [UInt8.ofNat value]
  else if value < 256 then 0xcc :: toBe 1 value
  else if value < 65536 then 0xcd :: toBe 2 value
  else if value < 2 ^ 32 then 0xce :: toBe 4 value
  else 0xcf :: toBe 8 value

/-- The two's complement of an integer at a width in bytes. -/
def ofSigned (width : Nat) (value : Int) : Nat := (value % 256 ^ width).toNat

def toSigned (width value : Nat) : Int :=
  if 2 * value < 256 ^ width then value else value - 256 ^ width

/-- `rmp::encode::write_sint`. -/
def writeSint (value : Int) : Bytes :=
  if 0 ≤ value then writeUint value.toNat
  else if -32 ≤ value then toBe 1 (ofSigned 1 value)
  else if -128 ≤ value then 0xd0 :: toBe 1 (ofSigned 1 value)
  else if -32768 ≤ value then 0xd1 :: toBe 2 (ofSigned 2 value)
  else if -2 ^ 31 ≤ value then 0xd2 :: toBe 4 (ofSigned 4 value)
  else 0xd3 :: toBe 8 (ofSigned 8 value)

/-- `rmp::decode::read_int`, before the conversion to the type that is asked for. -/
def readInt : Reader Int := fun input => do
  let (marker, rest) ← readMarker input
  match marker with
  | .fixPos value => some (value, rest)
  | .fixNeg value => some (value, rest)
  | .uint width => (readBe width rest).map fun (value, rest) => ((value : Int), rest)
  | .sint width => (readBe width rest).map fun (value, rest) => (toSigned width value, rest)
  | _ => none

/-- `str::as_bytes`. -/
def utf8 (text : String) : Bytes := text.toByteArray.data.toList

/-- `rmp::encode::write_str`; the length is cast to `u32`. -/
def writeStr (text : String) : Bytes :=
  let len := (utf8 text).length % 2 ^ 32
  (if len < 32 then [UInt8.ofNat (0xa0 + len)]
   else if len < 256 then 0xd9 :: toBe 1 len
   else if len < 65536 then 0xda :: toBe 2 len else 0xdb :: toBe 4 len) ++ utf8 text

/-- `String::deserialize`: `read_str_len`, the bytes and `String::from_utf8`. -/
def readStr : Reader String := fun input => do
  let (marker, rest) ← readMarker input
  let (len, rest) ← match marker with
    | .fixStr len => some (len, rest)
    | .str width => readBe width rest
    | _ => none
  let (data, rest) ← readExact len rest
  let text ← String.fromUTF8? ⟨data.toArray⟩
  some (text, rest)

/-- `rmp::decode::read_f64`, by the bits of the number. -/
def readF64 : Reader Nat := fun input => do
  let (marker, rest) ← readMarker input
  match marker with
  | .float 8 => readBe 8 rest
  | _ => none

/-- `n` values one after the other. -/
def readItems {α : Type} (read : Reader α) : Nat → Reader (List α)
  | 0, input => some ([], input)
  | n + 1, input => do
      let (value, rest) ← read input
      let (values, rest) ← readItems read n rest
      some (value :: values, rest)

/-- Values that are written one after the other are read back. -/
theorem readItems_flatMap {α : Type} {read : Reader α} {write : α → Bytes} {values : List α}
    (h : ∀ value ∈ values, ∀ rest, read (write value ++ rest) = some (value, rest)) (rest : Bytes) :
    readItems read values.length (values.flatMap write ++ rest) = some (values, rest) := by
  induction values with
  | nil => rfl
  | cons value values ih =>
      rw [List.forall_mem_cons] at h
      rw [List.flatMap_cons, List.append_assoc, List.length_cons, readItems, h.1]
      simp [ih h.2]

/-- `capture_value` a number of times: the bytes of the values that are skipped. -/
def captureValues : Nat → Reader Bytes
  | 0, input => some ([], input)
  | n + 1, input => do
      let rest ← skipValues input 1
      let (more, last) ← captureValues n rest
      some (input.take (input.length - rest.length) ++ more, last)

/-! ## Markers -/

section Markers

variable (rest : Bytes)

theorem readMarker_cons (byte : UInt8) :
    readMarker (byte :: rest) = some (Marker.ofByte byte, rest) := rfl

theorem ofByte_fixPos : ∀ value < 128, Marker.ofByte (UInt8.ofNat value) = .fixPos value := by
  decide

theorem ofByte_fixStr : ∀ len < 32, Marker.ofByte (UInt8.ofNat (0xa0 + len)) = .fixStr len := by
  decide

theorem ofByte_fixArray :
    ∀ len < 16, Marker.ofByte (UInt8.ofNat (0x90 + len)) = .fixArray len := by
  decide

theorem ofByte_fixNeg :
    ∀ value < 32, Marker.ofByte (UInt8.ofNat (0xe0 + value)) = .fixNeg (value - 32) := by
  decide

theorem readInt_writeUint {value : Nat} (hvalue : value < 2 ^ 64) :
    readInt (writeUint value ++ rest) = some ((value : Int), rest) := by
  unfold writeUint
  split
  next h => simp [readInt, readMarker_cons, ofByte_fixPos value h]
  next =>
    split
    next h =>
      simp [readInt, readMarker_cons, Marker.ofByte, readBe_toBe_append 1 (n := value) h]
    next =>
      split
      next h =>
        simp [readInt, readMarker_cons, Marker.ofByte, readBe_toBe_append 2 (n := value) h]
      next =>
        split
        next h =>
          simp [readInt, readMarker_cons, Marker.ofByte,
            readBe_toBe_append 4 (n := value) (by simpa using h)]
        next =>
          simp [readInt, readMarker_cons, Marker.ofByte,
            readBe_toBe_append 8 (n := value) (by simpa using hvalue)]

theorem natCast_ofSigned (width : Nat) (value : Int) :
    (ofSigned width value : Int) = value % (256 ^ width : Nat) := by
  rw [ofSigned, Int.toNat_of_nonneg (Int.emod_nonneg value (by positivity)), Nat.cast_pow]
  rfl

theorem ofSigned_lt (width : Nat) (value : Int) : ofSigned width value < 256 ^ width := by
  have hpos : (0 : Int) < (256 ^ width : Nat) := by positivity
  have hlt := Int.emod_lt_of_pos value hpos
  rw [← natCast_ofSigned] at hlt
  exact_mod_cast hlt

/-- Two's complement loses nothing within the range of the width. -/
theorem toSigned_ofSigned (hlow : -(256 ^ width : Nat) ≤ 2 * value)
    (hhigh : 2 * value < (256 ^ width : Nat)) : toSigned width (ofSigned width value) = value := by
  have hcast := natCast_ofSigned width value
  have hpos : (0 : Int) < (256 ^ width : Nat) := by positivity
  have hpow : (256 ^ width : Int) = (256 ^ width : Nat) := by push_cast; rfl
  unfold toSigned
  rw [hpow]
  obtain ⟨bound, hbound⟩ : ∃ bound, bound = 256 ^ width := ⟨_, rfl⟩
  rw [← hbound] at hlow hhigh hcast hpos ⊢
  rcases lt_or_ge value 0 with hneg | hnonneg
  · rw [← Int.add_mul_emod_self_left value _ 1, mul_one,
      Int.emod_eq_of_lt (by omega) (by omega)] at hcast
    rw [if_neg (by omega), hcast]
    omega
  · rw [Int.emod_eq_of_lt hnonneg (by omega)] at hcast
    rw [if_pos (by omega), hcast]

/-- A negative number at a width that holds it. -/
theorem readInt_signed {marker : UInt8} (hmarker : Marker.ofByte marker = .sint width)
    (hlow : -(256 ^ width : Nat) ≤ 2 * value) (hhigh : 2 * value < (256 ^ width : Nat)) :
    readInt (marker :: toBe width (ofSigned width value) ++ rest) = some (value, rest) := by
  have hread := readBe_toBe_append width (ofSigned_lt width value) rest
  simp [readInt, readMarker_cons, hmarker, hread, toSigned_ofSigned hlow hhigh]

theorem readInt_writeSint (hlow : -2 ^ 63 ≤ value) (hhigh : value < 2 ^ 63) :
    readInt (writeSint value ++ rest) = some (value, rest) := by
  unfold writeSint
  split
  next hnonneg =>
    rw [readInt_writeUint rest (by omega), Int.toNat_of_nonneg hnonneg]
  next =>
    split
    next h =>
      obtain ⟨low, hlow, hvalue⟩ : ∃ low : Nat, low < 32 ∧ value = (low : Int) - 32 :=
        ⟨(value + 32).toNat, by omega, by omega⟩
      have hbyte : ofSigned 1 value = 0xe0 + low := by
        rw [ofSigned]
        omega
      have hmod : (0xe0 + low) % 256 = 0xe0 + low := by omega
      have hmarker := ofByte_fixNeg low hlow
      rw [hbyte, toBe, toBe, hmod, List.nil_append, List.singleton_append, readInt,
        readMarker_cons, hmarker, hvalue]
      rfl
    next =>
      split
      next h => exact readInt_signed rest (by decide) (by norm_num; omega) (by norm_num; omega)
      next =>
        split
        next h => exact readInt_signed rest (by decide) (by norm_num; omega) (by norm_num; omega)
        next =>
          split
          next h =>
            exact readInt_signed rest (by decide) (by norm_num; omega) (by norm_num; omega)
          next => exact readInt_signed rest (by decide) (by norm_num; omega) (by norm_num; omega)

theorem fromUTF8?_utf8 (text : String) :
    String.fromUTF8? ⟨(utf8 text).toArray⟩ = some text := by
  have hdata : (⟨(utf8 text).toArray⟩ : ByteArray) = text.toByteArray := by
    rw [utf8, Array.toArray_toList]
  rw [hdata, String.fromUTF8?, dif_pos text.isValidUTF8]
  rfl

/-- The header of a string is read, whatever the length was before the cast. -/
theorem readStr_writeStr_eq (text : String) :
    readStr (writeStr text ++ rest) = (do
      let (data, rest) ← readExact ((utf8 text).length % 2 ^ 32) (utf8 text ++ rest)
      let text ← String.fromUTF8? ⟨data.toArray⟩
      some (text, rest)) := by
  have hlen : (utf8 text).length % 2 ^ 32 < 2 ^ 32 := Nat.mod_lt _ (by norm_num)
  unfold writeStr
  dsimp only
  generalize (utf8 text).length % 2 ^ 32 = len at hlen
  split
  next h =>
    have hmarker := ofByte_fixStr _ h
    rw [List.singleton_append, List.cons_append, readStr, readMarker_cons, hmarker]
    simp
  next =>
    split
    next h =>
      have hbe := readBe_toBe_append 1 h (utf8 text ++ rest)
      simp [readStr, readMarker_cons, Marker.ofByte, hbe]
    next =>
      split
      next h =>
        have hbe := readBe_toBe_append 2 h (utf8 text ++ rest)
        simp [readStr, readMarker_cons, Marker.ofByte, hbe]
      next =>
        have hbe := readBe_toBe_append 4 hlen (utf8 text ++ rest)
        simp [readStr, readMarker_cons, Marker.ofByte, hbe]

theorem readStr_writeStr {text : String} (hlen : (utf8 text).length < 2 ^ 32) :
    readStr (writeStr text ++ rest) = some (text, rest) := by
  have hread := readExact_append (utf8 text) rest
  rw [readStr_writeStr_eq, Nat.mod_eq_of_lt hlen]
  simp [hread, fromUTF8?_utf8]

theorem readArrayLen_writeArrayLen (hlen : len < 2 ^ 32) :
    readArrayLen (writeArrayLen len ++ rest) = some (len, rest) := by
  unfold writeArrayLen
  split
  next h =>
    rw [List.singleton_append, readArrayLen, readMarker_cons, ofByte_fixArray len h]
    rfl
  next =>
    split
    next h => simp [readArrayLen, readMarker_cons, Marker.ofByte, readBe_toBe_append 2 h]
    next => simp [readArrayLen, readMarker_cons, Marker.ofByte, readBe_toBe_append 4 hlen]

theorem readU8_writeU8 (value : UInt8) :
    readU8 (writeU8 value ++ rest) = some (value.toNat, rest) := by
  have hvalue := value.toNat_lt
  unfold writeU8
  split
  next h =>
    have hbyte := ofByte_fixPos value.toNat h
    rw [UInt8.ofNat_toNat] at hbyte
    simp [readU8, readMarker_cons, hbyte]
  next => simp [readU8, readMarker_cons, Marker.ofByte, readBe, readExact, fromBe, hvalue]

theorem readEnumHeader_unit (tag : UInt8) :
    readEnumHeader (writeU8 tag ++ rest) = some ((tag.toNat, 1), rest) := by
  unfold writeU8
  split
  next h =>
    have hbyte := ofByte_fixPos tag.toNat h
    rw [UInt8.ofNat_toNat] at hbyte
    simp [readEnumHeader, readMarker_cons, hbyte]
  next => simp [readEnumHeader, readMarker_cons, Marker.ofByte, readBe, readExact, fromBe]

theorem readEnumHeader_variant (tag : UInt8) :
    readEnumHeader (writeArrayLen 2 ++ (writeU8 tag ++ rest)) = some ((tag.toNat, 2), rest) := by
  have hread := readU8_writeU8 rest tag
  simp [readEnumHeader, writeArrayLen, readMarker_cons, Marker.ofByte, hread]

/-! ## Skipping -/

theorem skipValues_zero : skipValues rest 0 = some rest := by
  simp [skipValues, skipValues.go]

/-- What a reader reads does not depend on what follows. -/
theorem readExact_append_right (hread : readExact n input = some (data, out)) :
    readExact n (input ++ rest) = some (data, out ++ rest) := by
  unfold readExact at hread ⊢
  split at hread
  next hlen =>
    cases hread
    rw [if_pos (by rw [List.length_append]; omega), List.take_append_of_le_length hlen,
      List.drop_append_of_le_length hlen]
  next => cases hread

theorem readBe_append_right {value : Nat} (hread : readBe width input = some (value, out)) :
    readBe width (input ++ rest) = some (value, out ++ rest) := by
  obtain ⟨⟨data, tail⟩, hdata, heq⟩ := Option.map_eq_some_iff.mp hread
  cases heq
  rw [readBe, readExact_append_right rest hdata]
  rfl

theorem body_append_right {marker : Marker} (hbody : marker.body input = some (inner, out)) :
    marker.body (input ++ rest) = some (inner, out ++ rest) := by
  have hexact : ∀ {n : Nat} {input : Bytes},
      ((readExact n input).map fun (_, rest) => (0, rest)) = some (inner, out) →
        ((readExact n (input ++ rest)).map fun (_, rest) => (0, rest)) =
          some (inner, out ++ rest) := by
    intro n input hread
    obtain ⟨⟨data, tail⟩, hdata, heq⟩ := Option.map_eq_some_iff.mp hread
    cases heq
    rw [readExact_append_right rest hdata]
    rfl
  have hprefixed : ∀ (width : Nat) (size : Nat → Nat),
      ((readBe width input).bind fun (len, rest) =>
        (readExact (size len) rest).bind fun (_, rest) => some (0, rest)) = some (inner, out) →
      ((readBe width (input ++ rest)).bind fun (len, rest) =>
        (readExact (size len) rest).bind fun (_, rest) => some (0, rest)) =
          some (inner, out ++ rest) := by
    intro width size hread
    obtain ⟨⟨len, tail⟩, hlen, hread⟩ := Option.bind_eq_some_iff.mp hread
    obtain ⟨⟨data, last⟩, hdata, heq⟩ := Option.bind_eq_some_iff.mp hread
    cases heq
    simp [readBe_append_right rest hlen, readExact_append_right rest hdata]
  cases marker with
  | fixPos value | fixNeg value | null | bool => cases hbody; rfl
  | reserved => cases hbody
  | uint width | sint width | float width | fixStr len => exact hexact hbody
  | bin width | str width => exact hprefixed width (fun len => len) hbody
  | fixArray len => cases hbody; rfl
  | array width => exact readBe_append_right rest hbody
  | fixMap len => cases hbody; rfl
  | map width =>
      obtain ⟨⟨len, tail⟩, hlen, heq⟩ := Option.map_eq_some_iff.mp hbody
      cases heq
      simp only [Marker.body, readBe_append_right rest hlen, Option.map_some]
  | fixExt len => exact hexact hbody
  | ext width => exact hprefixed width (fun len => 1 + len) hbody

theorem go_append_right {rounds more pending : Nat} (hmore : rounds ≤ more)
    (hskip : skipValues.go rounds pending input = some out) :
    skipValues.go more pending (input ++ rest) = some (out ++ rest) := by
  induction rounds generalizing more pending input with
  | zero =>
      cases pending with
      | zero =>
          cases hskip
          simp [skipValues.go]
      | succ pending => cases hskip
  | succ rounds ih =>
      cases pending with
      | zero =>
          cases hskip
          simp [skipValues.go]
      | succ pending =>
          obtain ⟨fewer, rfl⟩ : ∃ fewer, more = fewer + 1 := ⟨more - 1, by omega⟩
          rw [skipValues.go] at hskip ⊢
          obtain ⟨⟨marker, tail⟩, hmarker, hskip⟩ := Option.bind_eq_some_iff.mp hskip
          obtain ⟨⟨inner, last⟩, hbody, hskip⟩ := Option.bind_eq_some_iff.mp hskip
          have hread : readMarker (input ++ rest) = some (marker, tail ++ rest) := by
            cases input with
            | nil => cases hmarker
            | cons byte input =>
                cases hmarker
                rfl
          simp only at hskip hbody
          rw [hread, Option.bind_eq_bind, Option.bind_some]
          simp only [body_append_right rest hbody, Option.bind_eq_bind, Option.bind_some]
          exact ih (Nat.succ_le_succ_iff.mp hmore) hskip

/-- Bytes that are one value are captured, and nothing behind them is. -/
theorem captureValues_one (hone : skipValues data 1 = some []) :
    captureValues 1 (data ++ rest) = some (data, rest) := by
  have hskip : skipValues (data ++ rest) 1 = some rest := by
    refine go_append_right rest ?_ hone
    rw [List.length_append]
    omega
  simp [captureValues, hskip]

end Markers

/-! ## Codecs -/

/-- `serialize` and `deserialize` of a type, with the values that are read back. -/
structure Codec (α : Type) where
  write : α → Bytes
  read : Reader α
  Fits : α → Prop
  read_write : ∀ value rest, Fits value → read (write value ++ rest) = some (value, rest)

namespace Codec

variable {α β : Type}

/-- Unsigned integers with values below a bound. -/
def uint (bound : Nat) (hbound : bound ≤ 2 ^ 64) : Codec Nat where
  write := writeUint
  read input := do
    let (value, rest) ← readInt input
    if 0 ≤ value ∧ value < bound then some (value.toNat, rest) else none
  Fits value := value < bound
  read_write value rest hfits := by
    simp [readInt_writeUint rest (hfits.trans_le hbound), hfits]

def u8 : Codec Nat := uint (2 ^ 8) (by norm_num)

def u32 : Codec Nat := uint (2 ^ 32) (by norm_num)

def u64 : Codec Nat := uint (2 ^ 64) (by norm_num)

def i64 : Codec Int where
  write := writeSint
  read input := do
    let (value, rest) ← readInt input
    if -2 ^ 63 ≤ value ∧ value < 2 ^ 63 then some (value, rest) else none
  Fits value := -2 ^ 63 ≤ value ∧ value < 2 ^ 63
  read_write value rest hfits := by
    rw [readInt_writeSint rest hfits.1 hfits.2]
    exact if_pos hfits

/-- The bits of an unsigned integer. -/
def bits (width : Nat) (hwidth : width ≤ 64) : Codec (BitVec width) where
  write value := writeUint value.toNat
  read input := do
    let (value, rest) ← readInt input
    if 0 ≤ value ∧ value < 2 ^ width then some (BitVec.ofNat width value.toNat, rest) else none
  Fits _ := True
  read_write value rest _ := by
    have hvalue : (value.toNat : Int) < 2 ^ width := by exact_mod_cast value.isLt
    have hread := readInt_writeUint rest
      (value.isLt.trans_le (Nat.pow_le_pow_right Nat.zero_lt_two hwidth))
    simp [hread, hvalue]

/-- The bits of an `f64`. -/
def f64 : Codec (BitVec 64) where
  write value := 0xcb :: toBe 8 value.toNat
  read input := (readF64 input).map fun (value, rest) => (BitVec.ofNat 64 value, rest)
  Fits _ := True
  read_write value rest _ := by
    have hread := readBe_toBe_append 8 (n := value.toNat) value.isLt rest
    simp [readF64, readMarker_cons, Marker.ofByte, hread]

def str : Codec String where
  write := writeStr
  read := readStr
  Fits text := (utf8 text).length < 2 ^ 32
  read_write _ rest hfits := readStr_writeStr rest hfits

/-- `Vec<u8>`. -/
def bin : Codec Bytes where
  write := writeBin
  read := readBin
  Fits data := data.length < 2 ^ 32
  read_write data rest hfits := readBin_writeBin_append data rest hfits

/-- `[u8; N]`, by its number. -/
def word (width n : Nat) (hn : n < 2 ^ 32) (hwidth : width = 8 * n) : Codec (BitVec width) where
  write value := writeBin (toBe n value.toNat)
  read input := do
    let (data, rest) ← readBin input
    if data.length = n then some (BitVec.ofNat width (fromBe data), rest) else none
  Fits _ := True
  read_write value rest _ := by
    have hread := readBin_writeBin_append (toBe n value.toNat) rest (by rwa [length_toBe])
    have hvalue : value.toNat < 256 ^ n :=
      calc value.toNat < 2 ^ width := value.isLt
        _ = 256 ^ n := by rw [hwidth, pow_mul]; rfl
    simp [hread, fromBe_toBe n hvalue]

/-- One value behind the other. -/
def pair (first : Codec α) (second : Codec β) : Codec (α × β) where
  write value := first.write value.1 ++ second.write value.2
  read input := do
    let (left, rest) ← first.read input
    let (right, rest) ← second.read rest
    some ((left, right), rest)
  Fits value := first.Fits value.1 ∧ second.Fits value.2
  read_write value rest hfits := by
    rw [List.append_assoc, first.read_write _ _ hfits.1]
    simp [second.read_write _ _ hfits.2]

/-- The codec of a type whose values are made from, and taken apart into, other values. -/
def via (codec : Codec β) (make : β → α) (fields : α → β)
    (hmake : ∀ value, make (fields value) = value) : Codec α where
  write value := codec.write (fields value)
  read input := (codec.read input).map fun (value, rest) => (make value, rest)
  Fits value := codec.Fits (fields value)
  read_write value rest hfits := by
    rw [codec.read_write _ _ hfits, Option.map_some]
    simp only [hmake]

/-- A structure: an array of its fields; further elements are skipped. -/
def struct (count : Nat) (hcount : count < 2 ^ 32) (fields : Codec α) : Codec α where
  write value := writeArrayLen count ++ fields.write value
  read input := do
    let (len, rest) ← readArrayLen input
    if len < count then none
    let (value, rest) ← fields.read rest
    let rest ← skipValues rest (len - count)
    some (value, rest)
  Fits := fields.Fits
  read_write value rest hfits := by
    rw [List.append_assoc, readArrayLen_writeArrayLen _ hcount]
    simp [fields.read_write _ _ hfits, skipValues_zero]

/-- A tuple: an array of exactly its elements. -/
def tuple (count : Nat) (hcount : count < 2 ^ 32) (fields : Codec α) : Codec α where
  write value := writeArrayLen count ++ fields.write value
  read input := do
    let (len, rest) ← readArrayLen input
    if len ≠ count then none
    fields.read rest
  Fits := fields.Fits
  read_write value rest hfits := by
    rw [List.append_assoc, readArrayLen_writeArrayLen _ hcount]
    simp [fields.read_write _ _ hfits]

/-- `Vec<T>`; the length is cast to `u32`. -/
def list (codec : Codec α) : Codec (List α) where
  write values := writeArrayLen (values.length % 2 ^ 32) ++ values.flatMap codec.write
  read input := do
    let (len, rest) ← readArrayLen input
    readItems codec.read len rest
  Fits values := values.length < 2 ^ 32 ∧ ∀ value ∈ values, codec.Fits value
  read_write values rest hfits := by
    rw [List.append_assoc, Nat.mod_eq_of_lt hfits.1, readArrayLen_writeArrayLen _ hfits.1]
    exact readItems_flatMap (fun value hmem rest => codec.read_write value rest (hfits.2 value hmem))
      rest

/-- An array of one element or none; a longer one is skipped and is none, too. -/
def option (codec : Codec α) : Codec (Option α) where
  write
    | some value => writeArrayLen 1 ++ codec.write value
    | none => writeArrayLen 0
  read input := do
    let (len, rest) ← readArrayLen input
    match len with
    | 0 => some (none, rest)
    | 1 => (codec.read rest).map fun (value, rest) => (some value, rest)
    | _ => (skipValues rest len).map fun rest => (none, rest)
  Fits value := ∀ inner ∈ value, codec.Fits inner
  read_write value rest hfits := by
    cases value with
    | none =>
        rw [readArrayLen_writeArrayLen rest (by norm_num)]
        rfl
    | some value =>
        rw [List.append_assoc, readArrayLen_writeArrayLen _ (by norm_num)]
        simp [codec.read_write value rest (hfits value rfl)]

end Codec

/-! ## Enumerations -/

section Variants

variable {α β : Type}

/-- A variant with a payload: an array of its tag and the payload. -/
def writeVariant (tag : Nat) (payload : Bytes) : Bytes :=
  writeArrayLen 2 ++ writeU8 (UInt8.ofNat tag) ++ payload

/-- The payload of a variant; the array has two elements. -/
def readVariant (codec : Codec β) (make : β → α) (len : Nat) : Reader α := fun rest =>
  if len ≠ 2 then none else (codec.read rest).map fun (value, rest) => (make value, rest)

/-- The header of a variant, then what its tag selects. -/
def readEnum (arms : Nat → Nat → Reader α) : Reader α := fun input => do
  let ((tag, len), rest) ← readEnumHeader input
  arms tag len rest

theorem readEnum_writeVariant (arms : Nat → Nat → Reader α) (htag : tag < 256)
    (payload rest : Bytes) :
    readEnum arms (writeVariant tag payload ++ rest) = arms tag 2 (payload ++ rest) := by
  have hheader := readEnumHeader_variant (payload ++ rest) (UInt8.ofNat tag)
  rw [UInt8.toNat_ofNat', Nat.mod_eq_of_lt htag] at hheader
  rw [readEnum, writeVariant, List.append_assoc, List.append_assoc, hheader]
  rfl

theorem readEnum_unit (arms : Nat → Nat → Reader α) (tag : Nat) (htag : tag < 256)
    (rest : Bytes) : readEnum arms (writeU8 (UInt8.ofNat tag) ++ rest) = arms tag 1 rest := by
  rw [readEnum, readEnumHeader_unit, UInt8.toNat_ofNat', Nat.mod_eq_of_lt htag]
  rfl

theorem readVariant_write (codec : Codec β) (make : β → α) (value : β)
    (hfits : codec.Fits value) (rest : Bytes) :
    readVariant codec make 2 (codec.write value ++ rest) = some (make value, rest) := by
  rw [readVariant, if_neg (by decide), codec.read_write _ _ hfits, Option.map_some]

end Variants

end MerkleTox.Proto
