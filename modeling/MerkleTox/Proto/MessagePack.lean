import Mathlib.Data.List.Basic
import Mathlib.Tactic.IntervalCases

/-! # MessagePack primitives

The byte-level readers and writers that `tox_proto` builds its derived codecs
from. A reader consumes a prefix of its input and returns what is left, `none`
standing for the error of the source.
-/

namespace MerkleTox.Proto

abbrev Bytes := List UInt8

/-- A reader of one value: the value and the bytes behind it. -/
abbrev Reader (α : Type) := Bytes → Option (α × Bytes)

/-- `u16::to_be_bytes` and its wider siblings. -/
def toBe : (width : Nat) → Nat → Bytes
  | 0, _ => []
  | width + 1, n => toBe width (n / 256) ++ [UInt8.ofNat (n % 256)]

/-- `u16::from_be_bytes` and its wider siblings. -/
def fromBe (bytes : Bytes) : Nat := bytes.foldl (fun acc byte => acc * 256 + byte.toNat) 0

/-- `Read::read_exact` into a buffer of `n` bytes. -/
def readExact (n : Nat) : Reader Bytes := fun input =>
  if n ≤ input.length then some (input.take n, input.drop n) else none

def readByte : Reader UInt8
  | [] => none
  | byte :: rest => some (byte, rest)

/-- A big-endian number of the given width. -/
def readBe (width : Nat) : Reader Nat := fun input =>
  (readExact width input).map fun (bytes, rest) => (fromBe bytes, rest)

/-- `rmp::Marker`, the first byte of a value. -/
inductive Marker
  | fixPos (value : Nat) | fixNeg (value : Int) | null | bool | reserved
  | uint (width : Nat) | sint (width : Nat) | float (width : Nat)
  | fixStr (len : Nat) | bin (width : Nat) | str (width : Nat)
  | fixArray (len : Nat) | array (width : Nat) | fixMap (len : Nat) | map (width : Nat)
  | fixExt (len : Nat) | ext (width : Nat)
  deriving DecidableEq, Repr

/-- `Marker::from_u8`. -/
def Marker.ofByte (byte : UInt8) : Marker :=
  let n := byte.toNat
  if n < 0x80 then .fixPos n
  else if n < 0x90 then .fixMap (n - 0x80)
  else if n < 0xa0 then .fixArray (n - 0x90)
  else if n < 0xc0 then .fixStr (n - 0xa0)
  else if 0xe0 ≤ n then .fixNeg (n - 256)
  else match n with
    | 0xc0 => .null | 0xc1 => .reserved | 0xc2 => .bool | 0xc3 => .bool
    | 0xc4 => .bin 1 | 0xc5 => .bin 2 | 0xc6 => .bin 4
    | 0xc7 => .ext 1 | 0xc8 => .ext 2 | 0xc9 => .ext 4
    | 0xca => .float 4 | 0xcb => .float 8
    | 0xcc => .uint 1 | 0xcd => .uint 2 | 0xce => .uint 4 | 0xcf => .uint 8
    | 0xd0 => .sint 1 | 0xd1 => .sint 2 | 0xd2 => .sint 4 | 0xd3 => .sint 8
    | 0xd4 => .fixExt 1 | 0xd5 => .fixExt 2 | 0xd6 => .fixExt 4 | 0xd7 => .fixExt 8
    | 0xd8 => .fixExt 16
    | 0xd9 => .str 1 | 0xda => .str 2 | 0xdb => .str 4
    | 0xdc => .array 2 | 0xdd => .array 4 | 0xde => .map 2 | _ => .map 4

def readMarker : Reader Marker := fun input =>
  (readByte input).map fun (byte, rest) => (Marker.ofByte byte, rest)

/-- The payload bytes a scalar marker is followed by, and the number of values a
container marker is followed by. The doubled map counts are `u16` and `u32`
products in the source. -/
def Marker.body : Marker → Reader Nat
  | .fixPos _ | .fixNeg _ | .null | .bool => fun rest => some (0, rest)
  | .reserved => fun _ => none
  | .uint width | .sint width | .float width => fun rest =>
      (readExact width rest).map fun (_, rest) => (0, rest)
  | .fixStr len => fun rest => (readExact len rest).map fun (_, rest) => (0, rest)
  | .bin width | .str width => fun rest => do
      let (len, rest) ← readBe width rest
      let (_, rest) ← readExact len rest
      some (0, rest)
  | .fixArray len => fun rest => some (len, rest)
  | .array width => readBe width
  | .fixMap len => fun rest => some (len * 2, rest)
  | .map width => fun rest =>
      (readBe width rest).map fun (len, rest) => (len * 2 % 256 ^ width, rest)
  | .fixExt len => fun rest => (readExact (1 + len) rest).map fun (_, rest) => (0, rest)
  | .ext width => fun rest => do
      let (len, rest) ← readBe width rest
      let (_, rest) ← readExact (1 + len) rest
      some (0, rest)

/-- Skip `pending` values. The recursion of `skip_value` into a container is a
larger number of pending values; every value takes at least its marker byte, so
the input length bounds the rounds. -/
def skipValues (input : Bytes) (pending : Nat) : Option Bytes :=
  go (input.length + 1) pending input
where
  go : Nat → Nat → Bytes → Option Bytes
  | _, 0, rest => some rest
  | 0, _ + 1, _ => none
  | rounds + 1, pending + 1, rest => do
      let (marker, rest) ← readMarker rest
      let (inner, rest) ← marker.body rest
      go rounds (inner + pending) rest

/-- `rmp::encode::write_uint` at `u8`. -/
def writeU8 (value : UInt8) : Bytes := if value.toNat < 128 then [value] else [0xcc, value]

/-- `rmp::encode::write_array_len`. -/
def writeArrayLen (len : Nat) : Bytes :=
  if len < 16 then [UInt8.ofNat (0x90 + len)]
  else if len < 65536 then 0xdc :: toBe 2 len else 0xdd :: toBe 4 len

/-- `rmp::encode::write_bin`; the length is cast to `u32`. -/
def writeBin (data : Bytes) : Bytes :=
  let len := data.length % 2 ^ 32
  (if len < 256 then 0xc4 :: toBe 1 len
   else if len < 65536 then 0xc5 :: toBe 2 len else 0xc6 :: toBe 4 len) ++ data

/-- `rmp::decode::read_array_len`. -/
def readArrayLen : Reader Nat := fun input => do
  let (marker, rest) ← readMarker input
  match marker with
  | .fixArray len => some (len, rest)
  | .array width => readBe width rest
  | _ => none

/-- `u8::deserialize`, that is `rmp::decode::read_int` at `u8`. -/
def readU8 : Reader Nat := fun input => do
  let (marker, rest) ← readMarker input
  match marker with
  | .fixPos value => some (value, rest)
  | .uint width =>
      let (value, rest) ← readBe width rest
      if value < 256 then some (value, rest) else none
  | .sint width =>
      let (value, rest) ← readBe width rest
      if value < 256 ∧ value < 256 ^ width / 2 then some (value, rest) else none
  | _ => none

/-- `Vec::<u8>::deserialize`: `read_bin_len`, then the bytes. -/
def readBin : Reader Bytes := fun input => do
  let (marker, rest) ← readMarker input
  match marker with
  | .bin width =>
      let (len, rest) ← readBe width rest
      readExact len rest
  | _ => none

/-- `read_enum_header`: the variant tag and the length of the wrapping array. -/
def readEnumHeader : Reader (Nat × Nat) := fun input => do
  let (marker, rest) ← readMarker input
  match marker with
  | .fixPos idx => some ((idx, 1), rest)
  | .uint 1 =>
      let (idx, rest) ← readBe 1 rest
      some ((idx, 1), rest)
  | .fixArray len =>
      let (idx, rest) ← readU8 rest
      some ((idx, len), rest)
  | .array width =>
      let (len, rest) ← readBe width rest
      let (idx, rest) ← readU8 rest
      some ((idx, len), rest)
  | _ => none

@[simp]
theorem length_toBe (width n : Nat) : (toBe width n).length = width := by
  induction width generalizing n with
  | zero => rfl
  | succ width ih => simp [toBe, ih]

theorem fromBe_append (bytes : Bytes) (byte : UInt8) :
    fromBe (bytes ++ [byte]) = fromBe bytes * 256 + byte.toNat := by
  simp [fromBe]

theorem fromBe_toBe (width : Nat) {n : Nat} (hn : n < 256 ^ width) :
    fromBe (toBe width n) = n := by
  induction width generalizing n with
  | zero =>
      simp only [pow_zero, Nat.lt_one_iff] at hn
      simp [toBe, fromBe, hn]
  | succ width ih =>
      have hdiv : n / 256 < 256 ^ width := Nat.div_lt_of_lt_mul (by rwa [pow_succ'] at hn)
      have hbyte : (UInt8.ofNat (n % 256)).toNat = n % 256 := by simp
      rw [toBe, fromBe_append, ih hdiv, hbyte]
      omega

theorem readExact_append (bytes rest : Bytes) :
    readExact bytes.length (bytes ++ rest) = some (bytes, rest) := by
  simp [readExact]

theorem readBe_toBe_append (width : Nat) {n : Nat} (hn : n < 256 ^ width) (rest : Bytes) :
    readBe width (toBe width n ++ rest) = some (n, rest) := by
  have hread := readExact_append (toBe width n) rest
  rw [length_toBe] at hread
  simp [readBe, hread, fromBe_toBe width hn]

/-- A byte string is read back, and nothing behind it is touched. -/
theorem readBin_writeBin_append (data rest : Bytes) (hlen : data.length < 2 ^ 32) :
    readBin (writeBin data ++ rest) = some (data, rest) := by
  have hread := readExact_append data rest
  unfold writeBin
  rw [Nat.mod_eq_of_lt hlen]
  dsimp only
  split
  next h =>
    have hbe := readBe_toBe_append 1 (n := data.length) h (data ++ rest)
    simp [readBin, readMarker, readByte, Marker.ofByte, hbe, hread]
  next h1 =>
    split
    next h =>
      have hbe := readBe_toBe_append 2 (n := data.length) h (data ++ rest)
      simp [readBin, readMarker, readByte, Marker.ofByte, hbe, hread]
    next h =>
      have hbe := readBe_toBe_append 4 (n := data.length) (by simpa using hlen) (data ++ rest)
      simp [readBin, readMarker, readByte, Marker.ofByte, hbe, hread]

end MerkleTox.Proto
