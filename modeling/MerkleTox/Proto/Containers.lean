import MerkleTox.Proto.SelfDelimiting

/-! # Containers

The implementations of the primitive types and of the containers are faithful where those
of their parts are: a value is read back if and only if its lengths fit their headers.
-/

namespace MerkleTox.Proto

open Library

section Counted

variable {α γ : Type} {write : α → Option Bytes} {read : Reader α} {fits : α → Prop}
  {encodes : α → Bytes → Prop}

/-- The number of the values fits the header, and each of the values. -/
def FitsCounted (fits : α → Prop) (values : List α) : Prop :=
  values.length < 2 ^ 32 ∧ ∀ value ∈ values, fits value

/-- The number of the values in a header, and behind it encodings of the values. -/
def EncodesCounted (writeLen : Nat → Bytes) (encodes : α → Bytes → Prop) (values : List α)
    (bytes : Bytes) : Prop :=
  values.length < 2 ^ 32 ∧
    ∃ data, EncodesEach encodes values data ∧ bytes = writeLen values.length ++ data

/-- A container that is written as its items and collected from them again. -/
theorem Faithful.counted (h : Faithful write read fits encodes) (items : γ → List α)
    (collect : List α → γ) (hcollect : ∀ whole, collect (items whole) = whole)
    (hitems : ∀ {values whole}, values.length ≤ (items whole).length → collect values = whole →
      values = items whole)
    {writeLen : Nat → Bytes} {readLen : Reader Nat}
    (hlen : ∀ rest len, readLen (writeLen len ++ rest) = some (len % 2 ^ 32, rest)) :
    Faithful (fun whole => (writeEach write (items whole)).map (writeLen (items whole).length ++ ·))
      (fun input => do
        let (len, rest) ← readLen input
        let (values, rest) ← readItems read len rest
        some (collect values, rest))
      (fun whole => FitsCounted fits (items whole))
      (fun whole => EncodesCounted writeLen encodes (items whole)) where
  reads := by
    rintro whole bytes ⟨hlt, data, heach, rfl⟩ rest
    have hread := readItems_append h.reads heach rest
    simp only [List.append_assoc, hlen, Nat.mod_eq_of_lt hlt, Option.bind_eq_bind,
      Option.bind_some, hread, hcollect]
  written := by
    rintro whole ⟨hlt, hvalues⟩
    obtain ⟨data, hdata, heach⟩ := h.written_each hvalues
    refine ⟨writeLen (items whole).length ++ data, ?_, hlt, data, heach, rfl⟩
    simp only [hdata, Option.map_some]
  returned := by
    intro whole bytes rest out hwrite hread
    obtain ⟨data, hdata, rfl⟩ := Option.map_eq_some_iff.mp hwrite
    simp only [List.append_assoc, hlen, Option.bind_eq_bind, Option.bind_some] at hread
    obtain ⟨⟨values, last⟩, hvalues, heq⟩ := Option.bind_eq_some_iff.mp hread
    cases heq
    have hcount := length_readItems hvalues
    have hsame : values = items (collect values) :=
      hitems (hcount ▸ Nat.mod_le _ _) rfl
    rw [← hsame] at hvalues hdata hcount ⊢
    have hlt : values.length < 2 ^ 32 := hcount ▸ Nat.mod_lt _ (by norm_num)
    rw [Nat.mod_eq_of_lt hlt] at hvalues
    exact ⟨hlt, h.returned_each hdata hvalues⟩

end Counted

/-! ## Primitive types -/

theorem utf8_of_fromUTF8? {data : Bytes} {text : String}
    (htext : String.fromUTF8? ⟨data.toArray⟩ = some text) : utf8 text = data := by
  unfold String.fromUTF8? at htext
  split at htext
  next =>
    cases htext
    rfl
  next => cases htext

/-- The length of a string fits its header; every other primitive value fits. -/
def Scalar.Fits : (kind : Scalar) → kind.Val → Prop
  | .string, value => (utf8 value).length < 2 ^ 32
  | _, _ => True

def Scalar.Encodes (kind : Scalar) (value : kind.Val) (bytes : Bytes) : Prop :=
  kind.impl.serialize value = some bytes ∧ kind.Fits value

theorem faithful_of_reads {α : Type} {proto : ToxProto α} {write : α → Bytes}
    (hwrite : ∀ value, proto.serialize value = some (write value))
    (hreads : Reads proto.deserialize fun value bytes => proto.serialize value = some bytes) :
    Faithful proto.serialize proto.deserialize (fun _ => True)
      (fun value bytes => proto.serialize value = some bytes ∧ True) where
  reads value bytes h := hreads value bytes h.1
  written value _ := ⟨_, hwrite value, hwrite value, trivial⟩
  returned _ _ := trivial

theorem faithful_string :
    Faithful ToxProto.string.serialize ToxProto.string.deserialize
      (fun value => (utf8 value).length < 2 ^ 32)
      (fun value bytes =>
        ToxProto.string.serialize value = some bytes ∧ (utf8 value).length < 2 ^ 32) where
  reads := ToxProto.reads_string
  written value h := ⟨_, rfl, rfl, h⟩
  returned := by
    rintro value bytes rest out ⟨⟩ hread
    rw [show ToxProto.string.deserialize = readStr from rfl, readStr_writeStr_eq] at hread
    obtain ⟨⟨data, tail⟩, hdata, hread⟩ := Option.bind_eq_some_iff.mp hread
    obtain ⟨text, htext, heq⟩ := Option.bind_eq_some_iff.mp hread
    cases heq
    rw [utf8_of_fromUTF8? htext, (length_readExact hdata).1]
    exact Nat.mod_lt _ (by norm_num)

theorem Scalar.faithful (kind : Scalar) :
    Faithful kind.impl.serialize kind.impl.deserialize kind.Fits kind.Encodes := by
  cases kind with
  | u8 => exact faithful_of_reads (fun _ => rfl) (ToxProto.reads_unsigned (by decide) true)
  | u16 | u32 | u64 | usize =>
      exact faithful_of_reads (fun _ => rfl) (ToxProto.reads_unsigned (by decide) false)
  | i8 | i16 | i32 | i64 | isize =>
      exact faithful_of_reads (fun _ => rfl) (ToxProto.reads_signed (by decide))
  | u128 | i128 => exact faithful_of_reads (fun _ => rfl) ToxProto.reads_int128
  | f32 | f64 => exact faithful_of_reads (fun _ => rfl) (ToxProto.reads_float (by decide))
  | char => exact faithful_of_reads (fun _ => rfl) ToxProto.reads_char
  | bool => exact faithful_of_reads (fun _ => rfl) ToxProto.reads_bool
  | string => exact faithful_string

/-! ## Arrays -/

section Arrays

variable {α : Type} {item : ToxProto α} {fits : α → Prop} {encodes : α → Bytes → Prop}

/-- `rmp::encode::write_array_len` of a length that is cast to `u32`. -/
def writeLen (len : Nat) : Bytes := writeArrayLen (len % 2 ^ 32)

theorem readArrayLen_writeLen (rest : Bytes) (len : Nat) :
    readArrayLen (writeLen len ++ rest) = some (len % 2 ^ 32, rest) :=
  readArrayLen_writeArrayLen rest (Nat.mod_lt _ (by norm_num))

theorem Faithful.deque (h : Faithful item.serialize item.deserialize fits encodes) :
    Faithful item.deque.serialize item.deque.deserialize (FitsCounted fits)
      (EncodesCounted writeLen encodes) := by
  have hread : item.deque.deserialize = (fun input => do
      let (len, rest) ← readArrayLen input
      let (values, rest) ← readItems item.deserialize len rest
      some (values, rest)) := by
    funext input
    simp [ToxProto.deque]
  rw [hread]
  exact h.counted id id (fun _ => rfl) (fun _ heq => heq) readArrayLen_writeLen

namespace ToxProto

/-- Items of one byte are only counted. -/
def FitsVec (item : ToxProto α) (fits : α → Prop) (values : List α) : Prop :=
  if item.size = some 1 then values.length < 2 ^ 32 else FitsCounted fits values

def EncodesVec (item : ToxProto α) (encodes : α → Bytes → Prop) (values : List α)
    (bytes : Bytes) : Prop :=
  if item.size = some 1 then item.vec.serialize values = some bytes ∧ values.length < 2 ^ 32
  else EncodesCounted writeLen encodes values bytes

/-- Items of one byte in their byte string. -/
theorem faithful_memory (hsize : item.size = some 1) (hflat : item.Flat 1) :
    Faithful item.vec.serialize item.vec.deserialize (fun values => values.length < 2 ^ 32)
      (fun values bytes => item.vec.serialize values = some bytes ∧ values.length < 2 ^ 32) where
  reads := by
    rintro values bytes ⟨hwrite, hlt⟩ rest
    obtain ⟨data, hdata, hlen, hmemory⟩ := hflat.memory values
    simp only [vec, hsize, if_true, hdata, Option.map_some, Option.some.injEq] at hwrite
    subst hwrite
    have hexact := readExact_append data rest
    rw [hlen] at hexact
    simp only [vec, hsize, if_true, writeBin_eq, hlen, List.append_assoc, readBinLen_writeBinLen,
      Nat.mod_eq_of_lt hlt, Option.bind_eq_bind, Option.bind_some, hexact, hmemory]
  written := by
    intro values hlt
    obtain ⟨data, hdata, -, -⟩ := hflat.memory values
    have hwrite : item.vec.serialize values = some (writeBin data) := by
      simp only [vec, hsize, if_true, hdata, Option.map_some]
    exact ⟨_, hwrite, hwrite, hlt⟩
  returned := by
    intro values bytes rest out hwrite hread
    obtain ⟨data, hdata, hlen, -⟩ := hflat.memory values
    simp only [vec, hsize, if_true, hdata, Option.map_some, Option.some.injEq] at hwrite
    subst hwrite
    simp only [vec, hsize, if_true, writeBin_eq, hlen, List.append_assoc, readBinLen_writeBinLen,
      Option.bind_eq_bind, Option.bind_some] at hread
    obtain ⟨⟨found, tail⟩, hfound, hread⟩ := Option.bind_eq_some_iff.mp hread
    obtain ⟨again, hagain, heq⟩ := Option.bind_eq_some_iff.mp hread
    cases heq
    rw [length_fromMemory hagain, (length_readExact hfound).1]
    exact Nat.mod_lt _ (by norm_num)

end ToxProto

theorem Faithful.vec (h : Faithful item.serialize item.deserialize fits encodes)
    (hflat : item.size = some 1 → item.Flat 1) :
    Faithful item.vec.serialize item.vec.deserialize (item.FitsVec fits)
      (item.EncodesVec encodes) := by
  unfold ToxProto.FitsVec ToxProto.EncodesVec
  by_cases hsize : item.size = some 1
  · simp only [hsize, if_true]
    exact ToxProto.faithful_memory hsize (hflat hsize)
  · simp only [ToxProto.vec, hsize, if_false]
    exact h.deque

namespace ToxProto

variable {len : Nat} {values : {values : List α // values.length = len}}

theorem tryInto_eq_some {found : List α} : tryInto len found = some values ↔ found = values.1 := by
  unfold tryInto
  split
  next => rw [Option.some.injEq, Subtype.ext_iff]
  next hlen =>
    refine iff_of_false nofun fun heq => hlen ?_
    rw [heq, values.2]

/-- A fixed array is read as a vector of the known length. -/
theorem deserialize_array {input rest : Bytes} :
    (item.array len).deserialize input = some (values, rest) ↔
      item.vec.deserialize input = some (values.1, rest) := by
  by_cases hsize : item.size = some 1
  · simp only [array, vec, hsize, if_true]
    constructor
    · intro hread
      obtain ⟨⟨found, middle⟩, hfound, hread⟩ := Option.bind_eq_some_iff.mp hread
      dsimp only at hread
      split at hread
      next => cases hread
      next heq =>
        rw [not_not] at heq
        obtain ⟨⟨data, last⟩, hdata, hread⟩ := Option.bind_eq_some_iff.mp hread
        obtain ⟨list, hlist, hread⟩ := Option.bind_eq_some_iff.mp hread
        obtain ⟨whole, hwhole, hread⟩ := Option.bind_eq_some_iff.mp hread
        cases hread
        simp [hfound, heq, hdata, hlist, tryInto_eq_some.mp hwhole]
    · intro hread
      obtain ⟨⟨found, middle⟩, hfound, hread⟩ := Option.bind_eq_some_iff.mp hread
      obtain ⟨⟨data, last⟩, hdata, hread⟩ := Option.bind_eq_some_iff.mp hread
      obtain ⟨list, hlist, hread⟩ := Option.bind_eq_some_iff.mp hread
      cases hread
      have heq : found = len := by
        rw [← values.2, length_fromMemory hlist, (length_readExact hdata).1]
      subst heq
      have htry : tryInto found values.1 = some values := tryInto_eq_some.mpr rfl
      simp only at hdata
      simp [hfound, hdata, hlist, htry]
  · simp only [array, vec, hsize, if_false]
    constructor
    · intro hread
      obtain ⟨⟨found, middle⟩, hfound, hread⟩ := Option.bind_eq_some_iff.mp hread
      dsimp only at hread
      split at hread
      next => cases hread
      next heq =>
        rw [not_not] at heq
        obtain ⟨⟨list, last⟩, hlist, hread⟩ := Option.bind_eq_some_iff.mp hread
        obtain ⟨whole, hwhole, hread⟩ := Option.bind_eq_some_iff.mp hread
        cases hread
        have hsame : list = values.1 := tryInto_eq_some.mp hwhole
        simp [hfound, heq, hlist, hsame]
    · intro hread
      obtain ⟨⟨found, middle⟩, hfound, hread⟩ := Option.bind_eq_some_iff.mp hread
      have heq : found = len := (length_readItems hread).symm.trans values.2
      subst heq
      have htry : tryInto found values.1 = some values := tryInto_eq_some.mpr rfl
      simp only at hread
      simp [hfound, hread, htry]

theorem serialize_array (values : {values : List α // values.length = len}) :
    (item.array len).serialize values = item.vec.serialize values.1 := by
  simp only [array, vec, values.2]

end ToxProto

theorem Faithful.array (len : Nat)
    (h : Faithful item.vec.serialize item.vec.deserialize (item.FitsVec fits)
      (item.EncodesVec encodes)) :
    Faithful (item.array len).serialize (item.array len).deserialize
      (fun values => item.FitsVec fits values.1)
      (fun values => item.EncodesVec encodes values.1) where
  reads values bytes hencodes rest :=
    ToxProto.deserialize_array.mpr (h.reads values.1 bytes hencodes rest)
  written values hfits := by
    rw [ToxProto.serialize_array]
    exact h.written values.1 hfits
  returned hwrite hread := by
    rw [ToxProto.serialize_array] at hwrite
    exact h.returned hwrite (ToxProto.deserialize_array.mp hread)

end Arrays

/-! ## Options and results -/

section Sums

variable {α β : Type} {left : ToxProto α} {right : ToxProto β} {fitsLeft : α → Prop}
  {fitsRight : β → Prop} {encodesLeft : α → Bytes → Prop} {encodesRight : β → Bytes → Prop}

def FitsOption (fits : α → Prop) : Option α → Prop
  | some value => fits value
  | none => True

def EncodesOption (encodes : α → Bytes → Prop) : Option α → Bytes → Prop
  | some value, bytes => ∃ data, encodes value data ∧ bytes = writeArrayLen 1 ++ data
  | none, bytes => bytes = writeArrayLen 0

theorem Faithful.option
    (h : Faithful left.serialize left.deserialize fitsLeft encodesLeft) :
    Faithful left.option.serialize left.option.deserialize (FitsOption fitsLeft)
      (EncodesOption encodesLeft) where
  reads := by
    intro value bytes hencodes rest
    cases value with
    | none =>
        cases hencodes
        simp [ToxProto.option, readArrayLen_writeArrayLen]
    | some value =>
        obtain ⟨data, hdata, rfl⟩ := hencodes
        simp [ToxProto.option, readArrayLen_writeArrayLen, h.reads value data hdata]
  written := by
    intro value hfits
    cases value with
    | none => exact ⟨_, rfl, rfl⟩
    | some value =>
        obtain ⟨data, hdata, hencodes⟩ := h.written value hfits
        exact ⟨writeArrayLen 1 ++ data, by simp [ToxProto.option, hdata], data, hencodes, rfl⟩
  returned := by
    intro value bytes rest out hwrite hread
    cases value with
    | none => trivial
    | some value =>
        obtain ⟨data, hdata, rfl⟩ := Option.map_eq_some_iff.mp hwrite
        have hheader : readArrayLen (writeArrayLen 1 ++ (data ++ rest)) = some (1, data ++ rest) :=
          readArrayLen_writeArrayLen _ (by decide)
        simp only [ToxProto.option, List.append_assoc, hheader, Option.bind_eq_bind,
          Option.bind_some] at hread
        obtain ⟨⟨found, last⟩, hfound, heq⟩ := Option.map_eq_some_iff.mp hread
        cases heq
        exact h.returned hdata hfound

def EncodesResult (encodesLeft : α → Bytes → Prop) (encodesRight : β → Bytes → Prop) :
    α ⊕ β → Bytes → Prop
  | .inl value, bytes =>
      ∃ data, encodesLeft value data ∧ bytes = writeArrayLen 2 ++ writeU8 1 ++ data
  | .inr value, bytes =>
      ∃ data, encodesRight value data ∧ bytes = writeArrayLen 2 ++ writeU8 0 ++ data

/-- The header of a result, and what its number selects. -/
theorem ToxProto.deserialize_result (variant : UInt8) (data : Bytes) :
    (left.result right).deserialize (writeArrayLen 2 ++ writeU8 variant ++ data) =
      match variant.toNat with
      | 1 => (left.deserialize data).map fun (value, rest) => (.inl value, rest)
      | 0 => (right.deserialize data).map fun (value, rest) => (.inr value, rest)
      | _ => none := by
  have hheader : readArrayLen (writeArrayLen 2 ++ (writeU8 variant ++ data)) =
      some (2, writeU8 variant ++ data) := readArrayLen_writeArrayLen _ (by decide)
  have hvariant : readU8 (writeU8 variant ++ data) = some (variant.toNat, data) :=
    readU8_writeU8 _ _
  rw [List.append_assoc]
  unfold ToxProto.result
  dsimp only
  rw [hheader, Option.bind_eq_bind, Option.bind_some, if_neg (not_not_intro rfl), hvariant]
  rfl

theorem Faithful.result
    (hleft : Faithful left.serialize left.deserialize fitsLeft encodesLeft)
    (hright : Faithful right.serialize right.deserialize fitsRight encodesRight) :
    Faithful (left.result right).serialize (left.result right).deserialize
      (Sum.elim fitsLeft fitsRight) (EncodesResult encodesLeft encodesRight) where
  reads := by
    intro value bytes hencodes rest
    cases value with
    | inl value =>
        obtain ⟨data, hdata, rfl⟩ := hencodes
        rw [List.append_assoc, ToxProto.deserialize_result]
        simp [hleft.reads value data hdata]
    | inr value =>
        obtain ⟨data, hdata, rfl⟩ := hencodes
        rw [List.append_assoc, ToxProto.deserialize_result]
        simp [hright.reads value data hdata]
  written := by
    intro value hfits
    cases value with
    | inl value =>
        obtain ⟨data, hdata, hencodes⟩ := hleft.written value hfits
        exact ⟨writeArrayLen 2 ++ writeU8 1 ++ data, by simp [ToxProto.result, hdata], data,
          hencodes, rfl⟩
    | inr value =>
        obtain ⟨data, hdata, hencodes⟩ := hright.written value hfits
        exact ⟨writeArrayLen 2 ++ writeU8 0 ++ data, by simp [ToxProto.result, hdata], data,
          hencodes, rfl⟩
  returned := by
    intro value bytes rest out hwrite hread
    cases value with
    | inl value =>
        obtain ⟨data, hdata, rfl⟩ := Option.map_eq_some_iff.mp hwrite
        rw [List.append_assoc, ToxProto.deserialize_result] at hread
        obtain ⟨⟨found, last⟩, hfound, heq⟩ := Option.map_eq_some_iff.mp hread
        cases heq
        exact hleft.returned hdata hfound
    | inr value =>
        obtain ⟨data, hdata, rfl⟩ := Option.map_eq_some_iff.mp hwrite
        rw [List.append_assoc, ToxProto.deserialize_result] at hread
        obtain ⟨⟨found, last⟩, hfound, heq⟩ := Option.map_eq_some_iff.mp hread
        cases heq
        exact hright.returned hdata hfound

end Sums

/-! ## Pairs, maps and sets -/

section Pairs

variable {α β : Type} {writeLeft : α → Option Bytes} {writeRight : β → Option Bytes}
  {readLeft : Reader α} {readRight : Reader β} {fitsLeft : α → Prop} {fitsRight : β → Prop}
  {encodesLeft : α → Bytes → Prop} {encodesRight : β → Bytes → Prop}

def FitsBoth (fitsLeft : α → Prop) (fitsRight : β → Prop) (value : α × β) : Prop :=
  fitsLeft value.1 ∧ fitsRight value.2

/-- An encoding of the first value, and behind it one of the second. -/
def EncodesBoth (encodesLeft : α → Bytes → Prop) (encodesRight : β → Bytes → Prop)
    (value : α × β) (bytes : Bytes) : Prop :=
  ∃ first second, encodesLeft value.1 first ∧ encodesRight value.2 second ∧
    bytes = first ++ second

theorem Faithful.both (hleft : Faithful writeLeft readLeft fitsLeft encodesLeft)
    (hright : Faithful writeRight readRight fitsRight encodesRight) :
    Faithful
      (fun value => do
        let first ← writeLeft value.1
        let second ← writeRight value.2
        some (first ++ second))
      (fun input => do
        let (left, rest) ← readLeft input
        let (right, rest) ← readRight rest
        some ((left, right), rest))
      (FitsBoth fitsLeft fitsRight) (EncodesBoth encodesLeft encodesRight) where
  reads := by
    rintro ⟨left, right⟩ bytes ⟨first, second, hfirst, hsecond, rfl⟩ rest
    simp [hleft.reads left first hfirst, hright.reads right second hsecond]
  written := by
    rintro ⟨left, right⟩ ⟨hfirst, hsecond⟩
    obtain ⟨first, hfirst, hencodesFirst⟩ := hleft.written left hfirst
    obtain ⟨second, hsecond, hencodesSecond⟩ := hright.written right hsecond
    exact ⟨first ++ second, by simp [hfirst, hsecond], first, second, hencodesFirst,
      hencodesSecond, rfl⟩
  returned := by
    rintro ⟨left, right⟩ bytes rest out hwrite hread
    obtain ⟨first, hfirst, hwrite⟩ := Option.bind_eq_some_iff.mp hwrite
    obtain ⟨second, hsecond, heq⟩ := Option.bind_eq_some_iff.mp hwrite
    cases heq
    rw [List.append_assoc] at hread
    obtain ⟨⟨foundLeft, middle⟩, hfoundLeft, hread⟩ := Option.bind_eq_some_iff.mp hread
    obtain ⟨⟨foundRight, last⟩, hfoundRight, heq⟩ := Option.bind_eq_some_iff.mp hread
    cases heq
    obtain ⟨hvalue, rfl⟩ := hleft.settled hfirst hfoundLeft
    exact ⟨hvalue, hright.returned hsecond hfoundRight⟩

end Pairs

section Maps

variable {κ υ : Type} [DecidableEq κ] {key : ToxProto κ} {value : ToxProto υ}
  {fitsKey : κ → Prop} {fitsValue : υ → Prop} {encodesKey : κ → Bytes → Prop}
  {encodesValue : υ → Bytes → Prop}

theorem Faithful.map (hkey : Faithful key.serialize key.deserialize fitsKey encodesKey)
    (hvalue : Faithful value.serialize value.deserialize fitsValue encodesValue) :
    Faithful (key.map value).serialize (key.map value).deserialize
      (fun entries => FitsCounted (FitsBoth fitsKey fitsValue) entries.entries)
      (fun entries => EncodesCounted writeMapLen (EncodesBoth encodesKey encodesValue)
        entries.entries) := by
  refine (hkey.both hvalue).counted AssocMap.entries AssocMap.collect AssocMap.collect_entries ?_
    readMapLen_writeMapLen
  rintro entries whole hlen rfl
  exact (AssocMap.entries_collect_of_size hlen).symm

theorem Faithful.set (h : Faithful key.serialize key.deserialize fitsKey encodesKey) :
    Faithful key.set.serialize key.set.deserialize
      (fun items => FitsCounted fitsKey items.keys)
      (fun items => EncodesCounted writeLen encodesKey items.keys) := by
  have hentries : ∀ items : AssocMap κ Unit,
      (items.keys.map fun item => (item, ())) = items.entries := by
    intro items
    rw [AssocMap.keys, List.map_map]
    exact List.map_id' _
  have hwrite : key.set.serialize = fun items =>
      (writeEach key.serialize items.keys).map (writeLen items.keys.length ++ ·) := by
    funext items
    rw [AssocMap.keys, List.length_map]
    rfl
  rw [hwrite]
  refine h.counted AssocMap.keys (fun items => .collect (items.map fun item => (item, ())))
    (fun items => ?_) ?_ readArrayLen_writeLen
  · rw [hentries, AssocMap.collect_entries]
  · rintro items whole hlen rfl
    rw [AssocMap.keys, List.length_map] at hlen
    have hsame : (AssocMap.collect (items.map fun item => (item, ()))).entries =
        items.map fun item => (item, ()) :=
      AssocMap.entries_collect_of_size (by rwa [List.length_map])
    rw [AssocMap.keys, hsame, List.map_map]
    exact (List.map_id _).symm

end Maps

end MerkleTox.Proto
