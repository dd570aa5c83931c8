import MerkleTox.Proto.Traits

/-! # The derive macros

What `#[derive(ToxProto)]` generates: for structures in their array form, for structures
marked `flat` with their three rules, for enumerations, and for enumerations with a variant
that catches all others. Fields marked `skip` and bit flags are left out.

A type is written as the programmer writes it, with names for the derived ones, so that
types may be recursive. `Val` is the type of its values up to a depth, and `impl` the
implementation of the traits that the compiler puts together for it.
-/

namespace MerkleTox.Proto

open Library

/-! ## Fields -/

/-- The implementations for the fields of a structure, whose values make up a tuple. -/
inductive Fields : Type → Type 1
  | nil : Fields Unit
  | cons {α β : Type} (field : ToxProto α) (rest : Fields β) : Fields (α × β)

namespace Fields

def count {α : Type} : Fields α → Nat
  | nil => 0
  | cons _ rest => rest.count + 1

def size {α : Type} : Fields α → Option Nat
  | nil => some 0
  | cons field rest => do
      let first ← field.size
      let others ← rest.size
      some (first + others)

def isByteLike {α : Type} : Fields α → Bool
  | nil => true
  | cons field rest => field.isByteLike && rest.isByteLike

def serialize {α : Type} : Fields α → α → Option Bytes
  | nil, _ => some []
  | cons field rest, (value, values) => do
      let first ← field.serialize value
      let others ← rest.serialize values
      some (first ++ others)

def deserialize {α : Type} : Fields α → Reader α
  | nil, input => some ((), input)
  | cons field rest, input => do
      let (value, input) ← field.deserialize input
      let (values, input) ← rest.deserialize input
      some ((value, values), input)

def serializeFlat {α : Type} : Fields α → α → Option Bytes
  | nil, _ => some []
  | cons field rest, (value, values) => do
      let first ← field.serializeFlat value
      let others ← rest.serializeFlat values
      some (first ++ others)

def deserializeFlat {α : Type} : Fields α → Reader α
  | nil, input => some ((), input)
  | cons field rest, input => do
      let (value, input) ← field.deserializeFlat input
      let (values, input) ← rest.deserializeFlat input
      some ((value, values), input)

/-- `SIZE.expect(..)` of all fields but the last, and `flat_len` of the last. -/
def flatLen {α : Type} : Fields α → α → Option Nat
  | nil, _ => some 0
  | cons field nil, (value, _) => field.flatLen value
  | cons field (cons next rest), (_, values) => do
      let first ← field.size
      let others ← (cons next rest).flatLen values
      some (first + others)

end Fields

namespace ToxProto

variable {α β : Type}

/-- A tuple: an array of exactly its elements. -/
def tuple (fields : Fields α) : ToxProto α where
  size := fields.size
  isByteLike := fields.isByteLike
  flatLen _ := fields.size
  serialize value := (fields.serialize value).map (writeArrayLen fields.count ++ ·)
  deserialize input := do
    let (len, rest) ← readArrayLen input
    if len ≠ fields.count then none
    fields.deserialize rest
  serializeFlat := fields.serializeFlat
  deserializeFlat := fields.deserializeFlat

/-- The fields of an array that may be longer, the elements behind them being skipped. -/
def readExtensible (fields : Fields α) : Reader α := fun input => do
  let (len, rest) ← readArrayLen input
  if len < fields.count then none
  let (value, rest) ← fields.deserialize rest
  let rest ← skipValues rest (len - fields.count)
  some (value, rest)

/-- A structure in its array form. -/
def struct (fields : Fields α) : ToxProto α where
  size := none
  isByteLike := false
  flatLen _ := none
  serialize value := (fields.serialize value).map (writeArrayLen fields.count ++ ·)
  deserialize := readExtensible fields
  serializeFlat := fields.serializeFlat
  deserializeFlat := fields.deserializeFlat

/-- Rule 2 of flat structures: the fields as one byte string. The rest of the byte string
is drained, also when a field has left something of it. -/
def writeConcatenation (fields : Fields α) (value : α) : Option Bytes := do
  let totalSize ← fields.flatLen value
  let data ← fields.serializeFlat value
  some (writeBinLen totalSize ++ data)

def readConcatenation (fields : Fields α) : Reader α := fun input => do
  let (binLen, rest) ← readBinLen input
  let (value, _) ← fields.deserializeFlat (rest.take binLen)
  some (value, rest.drop binLen)

/-- A flat structure with one field is written as the field, one with more fields as a
byte string if all of them are byte-like, and else as an array. -/
def flat (first : ToxProto α) (rest : Fields β) : ToxProto (α × β) :=
  let fields := Fields.cons first rest
  { size := fields.size
    isByteLike := fields.isByteLike
    flatLen := fun _ => fields.size
    serialize := fun value =>
      if fields.count = 1 then fields.serialize value
      else if fields.isByteLike then writeConcatenation fields value
      else (fields.serialize value).map (writeArrayLen fields.count ++ ·)
    deserialize :=
      if fields.count = 1 then fields.deserialize
      else if fields.isByteLike then readConcatenation fields
      else readExtensible fields
    serializeFlat := fields.serializeFlat
    deserializeFlat := fields.deserializeFlat }

end ToxProto

/-! ## Enumerations -/

/-- The variants of an enumeration with their discriminants; the values are a sum. -/
inductive Variants : Type → Type 1
  | nil : Variants Empty
  | unit {β : Type} (idx : UInt8) (rest : Variants β) : Variants (Unit ⊕ β)
  | payload {α β : Type} (idx : UInt8) (fields : Fields α) (rest : Variants β) : Variants (α ⊕ β)

/-- A variant of a newer version: its discriminant and the bytes of its payload. -/
structure Unknown where
  discriminant : BitVec 32
  data : Bytes
  deriving DecidableEq

namespace Variants

/-- The arm of a variant with fields: one field is the payload itself, several are an array. -/
def writePayload {α : Type} (fields : Fields α) (value : α) : Option Bytes :=
  if fields.count = 1 then fields.serialize value
  else (fields.serialize value).map (writeArrayLen fields.count ++ ·)

def readPayload {α : Type} (fields : Fields α) : Reader α :=
  if fields.count = 1 then fields.deserialize else ToxProto.readExtensible fields

def serialize {α : Type} : Variants α → α → Option Bytes
  | unit idx _, .inl _ => some (writeU8 idx)
  | payload idx fields _, .inl value =>
      (writePayload fields value).map (writeArrayLen 2 ++ writeU8 idx ++ ·)
  | unit _ rest, .inr value => rest.serialize value
  | payload _ _ rest, .inr value => rest.serialize value

/-- There is an arm for the discriminant. -/
def knows {α : Type} : Variants α → Nat → Bool
  | nil, _ => false
  | unit idx rest, found => found == idx.toNat || rest.knows found
  | payload idx _ rest, found => found == idx.toNat || rest.knows found

/-- The arms of the enumeration, for a header that is already read. -/
def deserialize {α : Type} (found len : Nat) : Variants α → Reader α
  | nil, _ => none
  | unit idx rest, input =>
      if found = idx.toNat then if len ≠ 1 then none else some (.inl (), input)
      else (rest.deserialize found len input).map fun (value, input) => (.inr value, input)
  | payload idx fields rest, input =>
      if found = idx.toNat then
        if len ≠ 2 then none
        else (readPayload fields input).map fun (value, input) => (.inl value, input)
      else (rest.deserialize found len input).map fun (value, input) => (.inr value, input)

end Variants

namespace ToxProto

variable {α : Type}

def enum (variants : Variants α) : ToxProto α where
  size := none
  isByteLike := false
  flatLen _ := none
  serialize := variants.serialize
  deserialize input := do
    let ((idx, len), rest) ← readEnumHeader input
    variants.deserialize idx len rest
  serializeFlat _ := none
  deserializeFlat _ := none

/-- The catch-all variant: the discriminant that was stored, and the captured payload. -/
def writeUnknown (unknown : Unknown) : Bytes :=
  let idx := UInt8.ofNat unknown.discriminant.toNat
  if unknown.data.isEmpty then writeU8 idx
  else writeArrayLen 2 ++ writeU8 idx ++ unknown.data

/-- An enumeration whose last variant catches all discriminants without an arm. -/
def openEnum (variants : Variants α) : ToxProto (α ⊕ Unknown) where
  size := none
  isByteLike := false
  flatLen _ := none
  serialize
    | .inl value => variants.serialize value
    | .inr unknown => some (writeUnknown unknown)
  deserialize input := do
    let ((idx, len), rest) ← readEnumHeader input
    if variants.knows idx then
      (variants.deserialize idx len rest).map fun (value, rest) => (.inl value, rest)
    else
      (captureValues (len - 1) rest).map fun (data, rest) =>
        (.inr ⟨BitVec.ofNat 32 idx, data⟩, rest)
  serializeFlat _ := none
  deserializeFlat _ := none

end ToxProto

/-! ## Types -/

/-- The primitive types. -/
inductive Scalar
  | u8 | u16 | u32 | u64 | usize | i8 | i16 | i32 | i64 | isize | u128 | i128
  | f32 | f64 | char | bool | string
  deriving DecidableEq

namespace Scalar

def Val : Scalar → Type
  | u8 | i8 => BitVec 8
  | u16 | i16 => BitVec 16
  | u32 | i32 | f32 => BitVec 32
  | u64 | usize | i64 | isize | f64 => BitVec 64
  | u128 | i128 => BitVec 128
  | char => Char
  | bool => Bool
  | string => String

def impl : (scalar : Scalar) → ToxProto scalar.Val
  | u8 => .unsigned 1 true
  | u16 => .unsigned 2 false
  | u32 => .unsigned 4 false
  | u64 => .unsigned 8 false
  | usize => .unsigned 8 false
  | i8 => .signed 1
  | i16 => .signed 2
  | i32 => .signed 4
  | i64 => .signed 8
  | isize => .signed 8
  | u128 => .int128
  | i128 => .int128
  | f32 => .float 4 0xca
  | f64 => .float 8 0xcb
  | char => .char
  | bool => .bool
  | string => .string

instance : (scalar : Scalar) → DecidableEq scalar.Val
  | u8 | i8 => inferInstanceAs (DecidableEq (BitVec 8))
  | u16 | i16 => inferInstanceAs (DecidableEq (BitVec 16))
  | u32 | i32 | f32 => inferInstanceAs (DecidableEq (BitVec 32))
  | u64 | usize | i64 | isize | f64 => inferInstanceAs (DecidableEq (BitVec 64))
  | u128 | i128 => inferInstanceAs (DecidableEq (BitVec 128))
  | char => inferInstanceAs (DecidableEq Char)
  | bool => inferInstanceAs (DecidableEq Bool)
  | string => inferInstanceAs (DecidableEq String)

end Scalar

/-- The types that fields may have. -/
inductive Ty
  | scalar (kind : Scalar)
  | vec (item : Ty)
  | deque (item : Ty)
  | array (item : Ty) (len : Nat)
  | tuple (items : List Ty)
  | option (item : Ty)
  | result (ok err : Ty)
  | map (key value : Ty)
  | set (item : Ty)
  | named (name : String)

/-- A variant of a derived enumeration. -/
inductive VariantDecl
  | unit (idx : UInt8)
  | payload (idx : UInt8) (tys : List Ty)

def VariantDecl.idx : VariantDecl → UInt8
  | unit idx => idx
  | payload idx _ => idx

/-- The input of the derive macros. A flat structure has a field, and the discriminants of
an enumeration are distinct: anything else does not compile. -/
inductive Decl
  | struct (fields : List Ty)
  | flat (first : Ty) (rest : List Ty)
  | enum (variants : List VariantDecl) (distinct : (variants.map VariantDecl.idx).Nodup)
  | openEnum (variants : List VariantDecl) (distinct : (variants.map VariantDecl.idx).Nodup)

/-! ## Values and implementations -/

section Layer

variable {F : Ty → Type}

/-- The tuples with a value of each type. -/
def Each (F : Ty → Type) : List Ty → Type
  | [] => Unit
  | ty :: tys => F ty × Each F tys

/-- The fields of one of the variants. -/
def Choice (F : Ty → Type) : List VariantDecl → Type
  | [] => Empty
  | .unit _ :: variants => Unit ⊕ Choice F variants
  | .payload _ tys :: variants => Each F tys ⊕ Choice F variants

def DeclVal (F : Ty → Type) : Decl → Type
  | .struct fields => Each F fields
  | .flat first rest => F first × Each F rest
  | .enum variants _ => Choice F variants
  | .openEnum variants _ => Choice F variants ⊕ Unknown

/-- The values of a type, given the values of the types it is made of. -/
def TyVal (F : Ty → Type) (decl : String → Decl) : Ty → Type
  | .scalar kind => kind.Val
  | .vec item => List (F item)
  | .deque item => List (F item)
  | .array item len => {values : List (F item) // values.length = len}
  | .tuple items => Each F items
  | .option item => Option (F item)
  | .result ok err => F ok ⊕ F err
  | .map key value => AssocMap (F key) (F value)
  | .set item => AssocMap (F item) Unit
  | .named name => DeclVal F (decl name)

instance {κ υ : Type} [DecidableEq κ] [DecidableEq υ] : DecidableEq (AssocMap κ υ) :=
  fun first second => decidable_of_iff (first.entries = second.entries) AssocMap.ext_iff.symm

section Equality

variable [∀ ty, DecidableEq (F ty)]

instance : (tys : List Ty) → DecidableEq (Each F tys)
  | [] => inferInstanceAs (DecidableEq Unit)
  | ty :: tys =>
      have : DecidableEq (Each F tys) := instDecidableEqEach tys
      inferInstanceAs (DecidableEq (F ty × Each F tys))

instance : (variants : List VariantDecl) → DecidableEq (Choice F variants)
  | [] => inferInstanceAs (DecidableEq Empty)
  | .unit _ :: variants =>
      have : DecidableEq (Choice F variants) := instDecidableEqChoice variants
      inferInstanceAs (DecidableEq (Unit ⊕ Choice F variants))
  | .payload _ tys :: variants =>
      have : DecidableEq (Choice F variants) := instDecidableEqChoice variants
      inferInstanceAs (DecidableEq (Each F tys ⊕ Choice F variants))

instance : (decl : Decl) → DecidableEq (DeclVal F decl)
  | .struct fields => inferInstanceAs (DecidableEq (Each F fields))
  | .flat first rest => inferInstanceAs (DecidableEq (F first × Each F rest))
  | .enum variants _ => inferInstanceAs (DecidableEq (Choice F variants))
  | .openEnum variants _ => inferInstanceAs (DecidableEq (Choice F variants ⊕ Unknown))

instance (decl : String → Decl) : (ty : Ty) → DecidableEq (TyVal F decl ty)
  | .scalar kind => inferInstanceAs (DecidableEq kind.Val)
  | .vec item => inferInstanceAs (DecidableEq (List (F item)))
  | .deque item => inferInstanceAs (DecidableEq (List (F item)))
  | .array item len =>
      inferInstanceAs (DecidableEq {values : List (F item) // values.length = len})
  | .tuple items => inferInstanceAs (DecidableEq (Each F items))
  | .option item => inferInstanceAs (DecidableEq (Option (F item)))
  | .result ok err => inferInstanceAs (DecidableEq (F ok ⊕ F err))
  | .map key value => inferInstanceAs (DecidableEq (AssocMap (F key) (F value)))
  | .set item => inferInstanceAs (DecidableEq (AssocMap (F item) Unit))
  | .named name => inferInstanceAs (DecidableEq (DeclVal F (decl name)))

end Equality

variable (parts : ∀ ty, ToxProto (F ty))

def eachImpl : (tys : List Ty) → Fields (Each F tys)
  | [] => .nil
  | ty :: tys => .cons (parts ty) (eachImpl tys)

def choiceImpl : (variants : List VariantDecl) → Variants (Choice F variants)
  | [] => .nil
  | .unit idx :: variants => .unit idx (choiceImpl variants)
  | .payload idx tys :: variants => .payload idx (eachImpl parts tys) (choiceImpl variants)

def declImpl : (decl : Decl) → ToxProto (DeclVal F decl)
  | .struct fields => .struct (eachImpl parts fields)
  | .flat first rest => .flat (parts first) (eachImpl parts rest)
  | .enum variants _ => .enum (choiceImpl parts variants)
  | .openEnum variants _ => .openEnum (choiceImpl parts variants)

/-- The implementation for a type, given those for the types it is made of. -/
def tyImpl [∀ ty, DecidableEq (F ty)] (decl : String → Decl) :
    (ty : Ty) → ToxProto (TyVal F decl ty)
  | .scalar kind => kind.impl
  | .vec item => (parts item).vec
  | .deque item => (parts item).deque
  | .array item len => (parts item).array len
  | .tuple items => .tuple (eachImpl parts items)
  | .option item => (parts item).option
  | .result ok err => (parts ok).result (parts err)
  | .map key value => (parts key).map (parts value)
  | .set item => (parts item).set
  | .named name => declImpl parts (decl name)

end Layer

/-! ## Programs -/

mutual

/-- `SIZE` of a type, given that of the derived types. -/
def Ty.size (named : String → Option Nat) : Ty → Option Nat
  | .scalar kind => kind.impl.size
  | .array item len => (item.size named).map (· * len)
  | .tuple items => Ty.sizes named items
  | .named name => named name
  | _ => none

def Ty.sizes (named : String → Option Nat) : List Ty → Option Nat
  | [] => some 0
  | ty :: tys => do
      let first ← ty.size named
      let others ← Ty.sizes named tys
      some (first + others)

end

mutual

/-- `IS_BYTE_LIKE` of a type. -/
def Ty.isByteLike (named : String → Bool) : Ty → Bool
  | .scalar kind => kind.impl.isByteLike
  | .vec item => item.isByteLike named
  | .array item _ => item.isByteLike named
  | .tuple items => Ty.areByteLike named items
  | .named name => named name
  | _ => false

def Ty.areByteLike (named : String → Bool) : List Ty → Bool
  | [] => true
  | ty :: tys => ty.isByteLike named && Ty.areByteLike named tys

end

def Decl.size (named : String → Option Nat) : Decl → Option Nat
  | .flat first rest => Ty.sizes named (first :: rest)
  | _ => none

def Decl.isByteLike (named : String → Bool) : Decl → Bool
  | .flat first rest => Ty.areByteLike named (first :: rest)
  | _ => false

/-- The derived types of a program. The constants of the flat ones refer to those of their
fields, and the compiler has found values for all of them. -/
structure Program where
  decl : String → Decl
  size : String → Option Nat
  isByteLike : String → Bool
  size_eq : ∀ name, size name = (decl name).size size
  isByteLike_eq : ∀ name, isByteLike name = (decl name).isByteLike isByteLike

namespace Program

/-- The values of a type up to a depth. A value of a recursive type has some depth. -/
def Val (program : Program) : Nat → Ty → Type
  | 0, _ => Empty
  | depth + 1, ty => TyVal (program.Val depth) program.decl ty

instance (program : Program) : (depth : Nat) → (ty : Ty) → DecidableEq (program.Val depth ty)
  | 0, _ => inferInstanceAs (DecidableEq Empty)
  | depth + 1, ty =>
      have := instDecidableEqVal program depth
      inferInstanceAs (DecidableEq (TyVal (program.Val depth) program.decl ty))

/-- The implementation of a type without values that keeps the constants of the type. -/
def exhausted (program : Program) (ty : Ty) : ToxProto Empty where
  size := ty.size program.size
  isByteLike := ty.isByteLike program.isByteLike
  flatLen := nofun
  serialize := nofun
  deserialize _ := none
  serializeFlat := nofun
  deserializeFlat _ := none

/-- The implementation of the traits for a type, on values up to a depth. -/
def impl (program : Program) : (depth : Nat) → (ty : Ty) → ToxProto (program.Val depth ty)
  | 0, ty => program.exhausted ty
  | depth + 1, ty => tyImpl (program.impl depth) program.decl ty

end Program

end MerkleTox.Proto
