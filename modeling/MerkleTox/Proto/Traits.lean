import MerkleTox.Library.AssocMap
import MerkleTox.Proto.Codec

/-! # The codec traits

The implementations of `ToxSize`, `ToxSerialize` and `ToxDeserialize` that `tox_proto`
gives: those of the primitive types, and those of the containers as functions of the
implementations of their parts. `none` stands for an error, for a panic and for a call
that does not return.

A value of one byte in a vector or an array is written as the byte that it occupies in
memory, which is the byte of its flat form.
-/

namespace MerkleTox.Proto

open Library

/-- `ToxSize`, `ToxSerialize` and `ToxDeserialize` of one type. -/
structure ToxProto (α : Type) where
  size : Option Nat
  isByteLike : Bool
  flatLen : α → Option Nat
  serialize : α → Option Bytes
  deserialize : Reader α
  serializeFlat : α → Option Bytes
  deserializeFlat : Reader α

/-! ## Lengths -/

/-- `rmp::encode::write_bin_len`; the length is cast to `u32`. -/
def writeBinLen (len : Nat) : Bytes :=
  let len := len % 2 ^ 32
  if len < 256 then 0xc4 :: toBe 1 len
  else if len < 65536 then 0xc5 :: toBe 2 len else 0xc6 :: toBe 4 len

/-- `rmp::decode::read_bin_len`. -/
def readBinLen : Reader Nat := fun input => do
  let (marker, rest) ← readMarker input
  match marker with
  | .bin width => readBe width rest
  | _ => none

/-- `rmp::encode::write_map_len`; the length is cast to `u32`. -/
def writeMapLen (len : Nat) : Bytes :=
  let len := len % 2 ^ 32
  if len < 16 then [UInt8.ofNat (0x80 + len)]
  else if len < 65536 then 0xde :: toBe 2 len else 0xdf :: toBe 4 len

/-- `rmp::decode::read_map_len`. -/
def readMapLen : Reader Nat := fun input => do
  let (marker, rest) ← readMarker input
  match marker with
  | .fixMap len => some (len, rest)
  | .map width => readBe width rest
  | _ => none

/-! ## Sequences of values -/

section Sequences

variable {α : Type}

/-- `for item in self { item.serialize(writer)? }`. -/
def writeEach (write : α → Option Bytes) : List α → Option Bytes
  | [] => some []
  | value :: values => do
      let first ← write value
      let others ← writeEach write values
      some (first ++ others)

/-- `while let Ok(item) = T::deserialize_flat(reader)`: the loop ends when the bytes are
used up. When an item takes none, no number of rounds is enough. -/
def readWhile (read : Reader α) : Nat → Reader (List α)
  | 0, _ => none
  | rounds + 1, input =>
      match read input with
      | none => some ([], [])
      | some (value, rest) =>
          (readWhile read rounds rest).map fun (values, rest) => (value :: values, rest)

/-- The values that occupy the given bytes of memory, one byte each. -/
def fromMemory (read : Reader α) (bytes : Bytes) : Option (List α) :=
  bytes.mapM fun byte => (read [byte]).map Prod.fst

end Sequences

namespace ToxProto

variable {α β κ υ : Type}

/-! ## Primitive types -/

/-- The unsigned integers up to `u64`, by their width in bytes. -/
def unsigned (width : Nat) (isByteLike : Bool) : ToxProto (BitVec (8 * width)) where
  size := some width
  isByteLike := isByteLike
  flatLen _ := some width
  serialize value := some (writeUint value.toNat)
  deserialize input := do
    let (value, rest) ← readInt input
    if 0 ≤ value ∧ value < 2 ^ (8 * width) then some (BitVec.ofInt _ value, rest) else none
  serializeFlat value := some (toBe width value.toNat)
  deserializeFlat input := (readBe width input).map fun (value, rest) =>
    (BitVec.ofNat _ value, rest)

/-- The signed integers up to `i64`. -/
def signed (width : Nat) : ToxProto (BitVec (8 * width)) where
  size := some width
  isByteLike := false
  flatLen _ := some width
  serialize value := some (writeSint value.toInt)
  deserialize input := do
    let (value, rest) ← readInt input
    if -2 ^ (8 * width) ≤ 2 * value ∧ 2 * value < 2 ^ (8 * width) then
      some (BitVec.ofInt _ value, rest)
    else none
  serializeFlat value := some (toBe width value.toNat)
  deserializeFlat input := (readBe width input).map fun (value, rest) =>
    (BitVec.ofNat _ value, rest)

/-- `u128` and `i128`: sixteen bytes, the lowest first. -/
def int128 : ToxProto (BitVec 128) where
  size := some 16
  isByteLike := false
  flatLen _ := some 16
  serialize value := some (writeBin (toBe 16 value.toNat).reverse)
  deserialize input := do
    let (len, rest) ← readBinLen input
    if len ≠ 16 then none
    let (data, rest) ← readExact 16 rest
    some (BitVec.ofNat 128 (fromBe data.reverse), rest)
  serializeFlat value := some (toBe 16 value.toNat).reverse
  deserializeFlat input := do
    let (data, rest) ← readExact 16 input
    some (BitVec.ofNat 128 (fromBe data.reverse), rest)

/-- `f32` and `f64`, by the bits of the number. -/
def float (width : Nat) (marker : UInt8) : ToxProto (BitVec (8 * width)) where
  size := some width
  isByteLike := false
  flatLen _ := some width
  serialize value := some (marker :: toBe width value.toNat)
  deserialize input := do
    let (found, rest) ← readMarker input
    if found ≠ .float width then none
    let (value, rest) ← readBe width rest
    some (BitVec.ofNat _ value, rest)
  serializeFlat value := some (toBe width value.toNat)
  deserializeFlat input := (readBe width input).map fun (value, rest) =>
    (BitVec.ofNat _ value, rest)

/-- `std::char::from_u32`. -/
def charFromU32 (value : Nat) : Option Char :=
  if h : value.isValidChar then some (Char.ofNatAux value h) else none

def char : ToxProto Char where
  size := some 4
  isByteLike := false
  flatLen _ := some 4
  serialize value := some (writeUint value.toNat)
  deserialize input := do
    let (value, rest) ← readInt input
    if ¬ (0 ≤ value ∧ value < 2 ^ 32) then none
    let value ← charFromU32 value.toNat
    some (value, rest)
  serializeFlat value := some (toBe 4 value.toNat)
  deserializeFlat input := do
    let (value, rest) ← readBe 4 input
    let value ← charFromU32 value
    some (value, rest)

def bool : ToxProto Bool where
  size := some 1
  isByteLike := false
  flatLen _ := some 1
  serialize value := some [if value then 0xc3 else 0xc2]
  deserialize input := do
    let (marker, rest) ← readByte input
    match marker with
    | 0xc3 => some (true, rest)
    | 0xc2 => some (false, rest)
    | _ => none
  serializeFlat value := some [if value then 1 else 0]
  deserializeFlat input := (readByte input).map fun (byte, rest) => (byte != 0, rest)

def string : ToxProto String where
  size := none
  isByteLike := true
  flatLen value := some (utf8 value).length
  serialize value := some (writeStr value)
  deserialize := readStr
  serializeFlat value := some (utf8 value)
  deserializeFlat input := do
    let value ← String.fromUTF8? ⟨input.toArray⟩
    some (value, [])

/-! ## Containers -/

/-- `Vec<T>`. -/
def vec (item : ToxProto α) : ToxProto (List α) where
  size := none
  isByteLike := item.isByteLike
  flatLen values := item.size.map (values.length * ·)
  serialize values :=
    if item.size = some 1 then (writeEach item.serializeFlat values).map writeBin
    else (writeEach item.serialize values).map (writeArrayLen (values.length % 2 ^ 32) ++ ·)
  deserialize input :=
    if item.size = some 1 then do
      let (len, rest) ← readBinLen input
      let (data, rest) ← readExact len rest
      let values ← fromMemory item.deserializeFlat data
      some (values, rest)
    else do
      let (len, rest) ← readArrayLen input
      readItems item.deserialize len rest
  serializeFlat values :=
    if item.size.isSome then writeEach item.serializeFlat values else none
  deserializeFlat input :=
    if item.size = some 1 then (fromMemory item.deserializeFlat input).map fun values =>
      (values, [])
    else match item.size with
      | none => none
      -- the loop reads items without bytes for ever
      | some 0 => none
      | some _ => readWhile item.deserializeFlat (input.length + 1) input

/-- `VecDeque<T>` and `SmallVec<T>`, which have no form for bytes. -/
def deque (item : ToxProto α) : ToxProto (List α) where
  size := none
  isByteLike := false
  flatLen _ := none
  serialize values :=
    (writeEach item.serialize values).map (writeArrayLen (values.length % 2 ^ 32) ++ ·)
  deserialize input := do
    let (len, rest) ← readArrayLen input
    readItems item.deserialize len rest
  serializeFlat _ := none
  deserializeFlat _ := none

/-- `vec.try_into()` for an array of `len` items. -/
def tryInto (len : Nat) (values : List α) : Option {values : List α // values.length = len} :=
  if h : values.length = len then some ⟨values, h⟩ else none

/-- `[T; N]`. -/
def array (item : ToxProto α) (len : Nat) : ToxProto {values : List α // values.length = len} where
  size := item.size.map (· * len)
  isByteLike := item.isByteLike
  flatLen _ := item.size.map (· * len)
  serialize values :=
    if item.size = some 1 then (writeEach item.serializeFlat values.1).map writeBin
    else (writeEach item.serialize values.1).map (writeArrayLen (len % 2 ^ 32) ++ ·)
  deserialize input :=
    if item.size = some 1 then do
      let (found, rest) ← readBinLen input
      if found ≠ len then none
      let (data, rest) ← readExact len rest
      let values ← fromMemory item.deserializeFlat data
      let values ← tryInto len values
      some (values, rest)
    else do
      let (found, rest) ← readArrayLen input
      if found ≠ len then none
      let (values, rest) ← readItems item.deserialize len rest
      let values ← tryInto len values
      some (values, rest)
  serializeFlat values := writeEach item.serializeFlat values.1
  deserializeFlat input := do
    let (values, rest) ← readItems item.deserializeFlat len input
    let values ← tryInto len values
    some (values, rest)

/-- An array of one element or none; a longer one is skipped and is none, too. -/
def option (item : ToxProto α) : ToxProto (Option α) where
  size := none
  isByteLike := false
  flatLen _ := none
  serialize
    | some value => (item.serialize value).map (writeArrayLen 1 ++ ·)
    | none => some (writeArrayLen 0)
  deserialize input := do
    let (len, rest) ← readArrayLen input
    match len with
    | 0 => some (none, rest)
    | 1 => (item.deserialize rest).map fun (value, rest) => (some value, rest)
    | _ => (skipValues rest len).map fun rest => (none, rest)
  serializeFlat _ := none
  deserializeFlat _ := none

/-- `Result<T, E>`. -/
def result (ok : ToxProto α) (err : ToxProto β) : ToxProto (α ⊕ β) where
  size := none
  isByteLike := false
  flatLen _ := none
  serialize
    | .inl value => (ok.serialize value).map (writeArrayLen 2 ++ writeU8 1 ++ ·)
    | .inr value => (err.serialize value).map (writeArrayLen 2 ++ writeU8 0 ++ ·)
  deserialize input := do
    let (len, rest) ← readArrayLen input
    if len ≠ 2 then none
    let (variant, rest) ← readU8 rest
    match variant with
    | 1 => (ok.deserialize rest).map fun (value, rest) => (.inl value, rest)
    | 0 => (err.deserialize rest).map fun (value, rest) => (.inr value, rest)
    | _ => none
  serializeFlat _ := none
  deserializeFlat _ := none

/-- A key and its value, one behind the other. -/
def writeEntry (key : ToxProto κ) (value : ToxProto υ) (entry : κ × υ) : Option Bytes := do
  let first ← key.serialize entry.1
  let second ← value.serialize entry.2
  some (first ++ second)

def readEntry (key : ToxProto κ) (value : ToxProto υ) : Reader (κ × υ) := fun input => do
  let (first, rest) ← key.deserialize input
  let (second, rest) ← value.deserialize rest
  some ((first, second), rest)

/-- `HashMap<K, V>` and `BTreeMap<K, V>`, with the entries in the order of the iteration. -/
def map [DecidableEq κ] (key : ToxProto κ) (value : ToxProto υ) : ToxProto (AssocMap κ υ) where
  size := none
  isByteLike := false
  flatLen _ := none
  serialize entries :=
    (writeEach (writeEntry key value) entries.entries).map (writeMapLen entries.size ++ ·)
  deserialize input := do
    let (len, rest) ← readMapLen input
    let (entries, rest) ← readItems (readEntry key value) len rest
    some (.collect entries, rest)
  serializeFlat _ := none
  deserializeFlat _ := none

/-- `HashSet<T>` and `BTreeSet<T>`, with the items in the order of the iteration. -/
def set [DecidableEq α] (item : ToxProto α) : ToxProto (AssocMap α Unit) where
  size := none
  isByteLike := false
  flatLen _ := none
  serialize items :=
    (writeEach item.serialize items.keys).map (writeArrayLen (items.size % 2 ^ 32) ++ ·)
  deserialize input := do
    let (len, rest) ← readArrayLen input
    let (items, rest) ← readItems item.deserialize len rest
    some (.collect (items.map fun item => (item, ())), rest)
  serializeFlat _ := none
  deserializeFlat _ := none

end ToxProto

end MerkleTox.Proto
