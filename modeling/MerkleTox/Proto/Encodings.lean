import MerkleTox.Proto.FlatForms
import MerkleTox.Proto.Skipping

/-! # Values that fit and their encodings

For every type of a program, which of its values fit their headers, and which byte strings
encode a value. Where the reader takes an array that is longer than the fields, an encoding
may have further values behind them, as an encoder of a newer version writes them.

The conditions on the values leave open, as `Limits`, what is asked of the counts of maps, of
the last fields of flat structures and of the contents of catch-all variants.
-/

namespace MerkleTox.Proto

open Library

/-- What a property asks of the values beyond lengths below `2 ^ 32`. -/
structure Limits where
  /-- The number of entries of a map. -/
  entries : Nat → Prop
  /-- The type of the last field of a flat structure that is one byte string. -/
  last : Ty → Prop
  /-- The discriminant of a catch-all variant, given the ones with an arm of their own. -/
  unknown : (Nat → Bool) → BitVec 32 → Prop

section Layer

variable {F : Ty → Type}

/-! ## Fitting values -/

section Fits

variable (parts : ∀ ty, ToxProto (F ty)) (limits : Limits) (fits : ∀ ty, F ty → Prop)

def FitsEach : (tys : List Ty) → Each F tys → Prop
  | [], _ => True
  | ty :: tys, value => FitsBoth (fits ty) (FitsEach tys) value

/-- The fields of an array. -/
def FitsArray (tys : List Ty) (value : Each F tys) : Prop :=
  tys.length < 2 ^ 32 ∧ FitsEach fits tys value

/-- The fields of a variant. -/
def FitsPayload (tys : List Ty) (value : Each F tys) : Prop :=
  if tys.length = 1 then FitsEach fits tys value else FitsArray fits tys value

def FitsChoice : (variants : List VariantDecl) → Choice F variants → Prop
  | .unit _ :: _, .inl _ => True
  | .payload _ tys :: _, .inl value => FitsPayload fits tys value
  | .unit _ :: variants, .inr value => FitsChoice variants value
  | .payload _ _ :: variants, .inr value => FitsChoice variants value

/-- The content of a catch-all variant is no value or one. -/
def FitsUnknown (variants : List VariantDecl) (unknown : Unknown) : Prop :=
  limits.unknown (choiceImpl parts variants).knows unknown.discriminant ∧
    (unknown.data = [] ∨ IsValue unknown.data)

/-- The fields of a flat structure with several fields: one byte string whose length fits
its header, or an array. -/
def FitsFlat (first : Ty) (rest : List Ty) (value : F first × Each F rest) : Prop :=
  let fields := Fields.cons (parts first) (eachImpl parts rest)
  if fields.isByteLike then
    limits.last ((first :: rest).getLast (List.cons_ne_nil first rest)) ∧
      ∃ total, fields.flatLen value = some total ∧ total < 2 ^ 32
  else FitsArray fits (first :: rest) value

variable {parts limits fits} in
theorem fitsFlat_bytes {first : Ty} {rest : List Ty}
    (hbyte : (eachImpl parts (first :: rest)).isByteLike = true) :
    FitsFlat parts limits fits first rest = fun value =>
      limits.last ((first :: rest).getLast (List.cons_ne_nil first rest)) ∧
        ∃ total, (eachImpl parts (first :: rest)).flatLen value = some total ∧ total < 2 ^ 32 := by
  funext value
  exact if_pos hbyte

variable {parts limits fits} in
theorem fitsFlat_array {first : Ty} {rest : List Ty}
    (hbyte : (eachImpl parts (first :: rest)).isByteLike = false) :
    FitsFlat parts limits fits first rest = FitsArray fits (first :: rest) := by
  funext value
  exact if_neg (ne_true_of_eq_false hbyte)

def FitsDecl : (decl : Decl) → DeclVal F decl → Prop
  | .struct tys, value => FitsArray fits tys value
  | .flat first [], value => fits first value.1
  | .flat first (next :: rest), value => FitsFlat parts limits fits first (next :: rest) value
  | .enum variants _, value => FitsChoice fits variants value
  | .openEnum variants _, value =>
      Sum.elim (FitsChoice fits variants) (FitsUnknown parts limits variants) value

def FitsTy (decl : String → Decl) : (ty : Ty) → TyVal F decl ty → Prop
  | .scalar kind, value => kind.Fits value
  | .vec item, values => (parts item).FitsVec (fits item) values
  | .deque item, values => FitsCounted (fits item) values
  | .array item _, values => (parts item).FitsVec (fits item) values.1
  | .tuple tys, value => FitsArray fits tys value
  | .option item, value => FitsOption (fits item) value
  | .result ok err, value => Sum.elim (fits ok) (fits err) value
  | .map key value, entries =>
      limits.entries entries.size ∧
        ∀ entry ∈ entries.entries, FitsBoth (fits key) (fits value) entry
  | .set item, items => FitsCounted (fits item) items.keys
  | .named name, value => FitsDecl parts limits fits (decl name) value

end Fits

/-! ## Encodings -/

section Encodes

variable (parts : ∀ ty, ToxProto (F ty)) (limits : Limits) (fits : ∀ ty, F ty → Prop)
  (encodes : ∀ ty, F ty → Bytes → Prop)

def EncodesFields : (tys : List Ty) → Each F tys → Bytes → Prop
  | [], _, bytes => bytes = []
  | ty :: tys, value, bytes => EncodesBoth (encodes ty) (EncodesFields tys) value bytes

/-- An array of the fields and of any number of values behind them. -/
inductive EncodesArray (tys : List Ty) (value : Each F tys) : Bytes → Prop
  | intro {data : Bytes} {extras : List Bytes} (hdata : EncodesFields encodes tys value data)
      (hextras : ∀ extra ∈ extras, IsValue extra) (hlen : tys.length + extras.length < 2 ^ 32) :
      EncodesArray tys value
        (writeArrayLen (tys.length + extras.length) ++ (data ++ extras.flatten))

/-- An array of exactly the elements. -/
inductive EncodesTuple (tys : List Ty) (value : Each F tys) : Bytes → Prop
  | intro {data : Bytes} (hdata : EncodesFields encodes tys value data)
      (hlen : tys.length < 2 ^ 32) :
      EncodesTuple tys value (writeArrayLen tys.length ++ data)

def EncodesPayload (tys : List Ty) (value : Each F tys) (bytes : Bytes) : Prop :=
  if tys.length = 1 then EncodesFields encodes tys value bytes
  else EncodesArray encodes tys value bytes

def EncodesChoice : (variants : List VariantDecl) → Choice F variants → Bytes → Prop
  | .unit idx :: _, .inl _, bytes => bytes = writeU8 idx
  | .payload idx tys :: _, .inl value, bytes =>
      ∃ payload, EncodesPayload encodes tys value payload ∧
        bytes = writeArrayLen 2 ++ writeU8 idx ++ payload
  | .unit _ :: variants, .inr value, bytes => EncodesChoice variants value bytes
  | .payload _ _ :: variants, .inr value, bytes => EncodesChoice variants value bytes

/-- A byte string is written in one way only. -/
def EncodesFlat (first : Ty) (rest : List Ty) (value : F first × Each F rest)
    (bytes : Bytes) : Prop :=
  let fields := Fields.cons (parts first) (eachImpl parts rest)
  if fields.isByteLike then
    FitsFlat parts limits fits first rest value ∧ ToxProto.writeConcatenation fields value = some bytes
  else EncodesArray encodes (first :: rest) value bytes

def EncodesDecl : (decl : Decl) → DeclVal F decl → Bytes → Prop
  | .struct tys, value, bytes => EncodesArray encodes tys value bytes
  | .flat first [], value, bytes => encodes first value.1 bytes
  | .flat first (next :: rest), value, bytes =>
      EncodesFlat parts limits fits encodes first (next :: rest) value bytes
  | .enum variants _, value, bytes => EncodesChoice encodes variants value bytes
  | .openEnum variants _, value, bytes =>
      Sum.elim (fun value => EncodesChoice encodes variants value bytes)
        (fun unknown => FitsUnknown parts limits variants unknown ∧
          bytes = ToxProto.writeUnknown unknown)
        value

def EncodesTy (decl : String → Decl) : (ty : Ty) → TyVal F decl ty → Bytes → Prop
  | .scalar kind, value, bytes => kind.Encodes value bytes
  | .vec item, values, bytes => (parts item).EncodesVec (encodes item) values bytes
  | .deque item, values, bytes => EncodesCounted writeLen (encodes item) values bytes
  | .array item _, values, bytes => (parts item).EncodesVec (encodes item) values.1 bytes
  | .tuple tys, value, bytes => EncodesTuple encodes tys value bytes
  | .option item, value, bytes => EncodesOption (encodes item) value bytes
  | .result ok err, value, bytes => EncodesResult (encodes ok) (encodes err) value bytes
  | .map key value, entries, bytes =>
      EncodesCounted writeMapLen (EncodesBoth (encodes key) (encodes value)) entries.entries bytes
  | .set item, items, bytes => EncodesCounted writeLen (encodes item) items.keys bytes
  | .named name, value, bytes =>
      EncodesDecl parts limits fits encodes (decl name) value bytes

end Encodes

end Layer

namespace Program

/-- The types whose values are read back: the lengths fit their headers, the last field of a
byte string may end it, and a catch-all variant has a discriminant that no arm takes. -/
def readable (program : Program) : Limits where
  entries count := count < 2 ^ 32
  last := program.Trails
  unknown known discriminant := discriminant.toNat < 256 ∧ known discriminant.toNat = false

/-- The values of a type that keep to the limits. -/
def Fits (program : Program) (limits : Limits) :
    (depth : Nat) → (ty : Ty) → program.Val depth ty → Prop
  | 0, _, _ => True
  | depth + 1, ty, value =>
      FitsTy (program.impl depth) limits (program.Fits limits depth) program.decl ty value

/-- The encodings of a value, with further fields wherever they may stand. -/
def Encodes (program : Program) :
    (depth : Nat) → (ty : Ty) → program.Val depth ty → Bytes → Prop
  | 0, _, _, _ => False
  | depth + 1, ty, value, bytes =>
      EncodesTy (program.impl depth) program.readable (program.Fits program.readable depth)
        (program.Encodes depth) program.decl ty value bytes

end Program

end MerkleTox.Proto
