import MerkleTox.Proto.Encodings

/-! # Streams of values

The bytes that the encoders write, as tokens: a marker with its body, and the number of
values that are inside it. `skip_value` may expect fewer of them than there are, for a map
whose doubled count is cut; how many it misses in all decides whether it finds the end.
-/

namespace MerkleTox.Proto

open Library

variable {pending inner len : Nat}

/-- The bytes of one marker and its body, behind which `inner` values are expected. -/
def Token (head : Bytes) (inner : Nat) : Prop :=
  ∀ tail, ∃ marker rest, readMarker (head ++ tail) = some (marker, rest) ∧
    marker.body rest = some (inner, tail)

/-- The bytes of `count` values, of which skipping misses `missed` on its way. -/
inductive Stream : Nat → Nat → Bytes → Prop
  | nil : Stream 0 0 []
  | token {head rest : Bytes} {inner lack count missed : Nat} (htoken : Token head inner)
      (hrest : Stream (inner + lack + count) missed rest) :
      Stream (count + 1) (lack + missed) (head ++ rest)

namespace Stream

variable {count missed : Nat} {bytes : Bytes}

theorem append {others lost : Nat} {more : Bytes} (h : Stream count missed bytes)
    (hmore : Stream others lost more) : Stream (count + others) (missed + lost)
    (bytes ++ more) := by
  induction h with
  | nil => simpa using hmore
  | @token head rest inner lack count missed htoken _ ih =>
      rw [List.append_assoc, Nat.add_right_comm, Nat.add_assoc lack]
      refine .token htoken ?_
      rw [← Nat.add_assoc]
      exact ih

/-- Skipping that ends with the bytes has counted all values, those missed inside as well. -/
theorem count_of_skips (h : Stream count missed bytes) (hskips : Skips bytes pending []) :
    pending = count + missed := by
  induction h generalizing pending with
  | nil =>
      have hlen := hskips.length_le
      simpa using hlen
  | @token head rest inner lack count missed htoken _ ih =>
      obtain ⟨marker, after, hmarker, hbody⟩ := htoken rest
      generalize hinput : head ++ rest = input at hskips hmarker
      cases hskips with
      | done =>
          cases hmarker
      | @round input tail last out found more pending hfound hmore hothers =>
          rw [hmarker, Option.some.injEq, Prod.mk.injEq] at hfound
          obtain ⟨rfl, rfl⟩ := hfound
          rw [hbody, Option.some.injEq, Prod.mk.injEq] at hmore
          obtain ⟨rfl, rfl⟩ := hmore
          have hcount := ih hothers
          omega

theorem skips (h : Stream count missed bytes) (hnone : missed = 0) : Skips bytes count [] := by
  induction h with
  | nil => exact .done []
  | @token head rest inner lack count missed htoken _ ih =>
      obtain ⟨rfl, rfl⟩ : lack = 0 ∧ missed = 0 := by omega
      obtain ⟨marker, after, hmarker, hbody⟩ := htoken rest
      exact .round hmarker hbody (ih rfl)

/-- The end is found if and only if nothing is missed. -/
theorem skips_iff (h : Stream count missed bytes) : Skips bytes count [] ↔ missed = 0 := by
  refine ⟨fun hskips => ?_, h.skips⟩
  have hcount := h.count_of_skips hskips
  omega

/-- What is skipped is a stream. -/
theorem of_skips {input out : Bytes} (h : Skips input pending out) :
    ∃ front, input = front ++ out ∧ Stream pending 0 front := by
  induction h with
  | done rest => exact ⟨[], rfl, .nil⟩
  | @round input tail last out marker inner pending hmarker hbody _ ih =>
      obtain ⟨front, rfl, hfront⟩ := ih
      obtain ⟨byte, rfl⟩ := readMarker_eq hmarker
      obtain ⟨data, rfl⟩ := Marker.suffix_body hbody
      have htoken : Token (byte :: data) inner := by
        intro rest
        obtain ⟨left, heq, hleft⟩ := Marker.body_split hbody le_rfl
        rw [List.self_eq_append_left.mp heq] at hleft
        have hmore := body_append_right rest hleft
        cases hmarker
        exact ⟨Marker.ofByte byte, data ++ rest, rfl, hmore⟩
      refine ⟨byte :: data ++ front, by simp, ?_⟩
      have hstream : Stream (pending + 1) (0 + 0) (byte :: data ++ front) := .token htoken hfront
      exact hstream

end Stream

/-! ## Tokens -/

namespace Token

variable {byte : UInt8} {data : Bytes} {marker : Marker} {width : Nat}

theorem of_body (hmarker : Marker.ofByte byte = marker)
    (hbody : ∀ tail, marker.body (data ++ tail) = some (inner, tail)) :
    Token (byte :: data) inner := fun tail =>
  ⟨marker, data ++ tail, by rw [List.cons_append, readMarker_cons, hmarker], hbody tail⟩

/-- A marker for a fixed number of bytes. -/
theorem of_bytes (hmarker : Marker.ofByte byte = marker) (hbody : ∀ input, marker.body input =
      (readExact data.length input).map fun (_, rest) => (0, rest)) : Token (byte :: data) 0 := by
  refine of_body hmarker fun tail => ?_
  rw [hbody, readExact_append]
  rfl

/-- A marker for a length and as many bytes. -/
theorem of_prefixed (hlen : data.length < 256 ^ width) (hmarker : Marker.ofByte byte = marker)
    (hbody : ∀ input, marker.body input = do
      let (len, rest) ← readBe width input
      let (_, rest) ← readExact len rest
      some (0, rest)) : Token (byte :: (toBe width data.length ++ data)) 0 := by
  refine of_body hmarker fun tail => ?_
  rw [hbody, List.append_assoc, readBe_toBe_append width hlen]
  simp [readExact_append]

/-- A marker for a number of values. -/
theorem of_counted {width : Nat} (size : Nat → Nat) (hlen : len < 256 ^ width)
    (hmarker : Marker.ofByte byte = marker) (hbody : ∀ input, marker.body input =
      (readBe width input).map fun (len, rest) => (size len, rest)) :
    Token (byte :: toBe width len) (size len) := by
  refine of_body hmarker fun tail => ?_
  rw [hbody, readBe_toBe_append width hlen]
  rfl

theorem bin (hlen : data.length < 256 ^ width) (hmarker : Marker.ofByte byte = .bin width) :
    Token (byte :: (toBe width data.length ++ data)) 0 :=
  of_prefixed hlen hmarker fun _ => rfl

theorem str (hlen : data.length < 256 ^ width) (hmarker : Marker.ofByte byte = .str width) :
    Token (byte :: (toBe width data.length ++ data)) 0 :=
  of_prefixed hlen hmarker fun _ => rfl

theorem array {width : Nat} (hlen : len < 256 ^ width)
    (hmarker : Marker.ofByte byte = .array width) : Token (byte :: toBe width len) len :=
  of_counted id hlen hmarker fun _ => Option.map_id'.symm

theorem map {width : Nat} (hlen : len < 256 ^ width) (hmarker : Marker.ofByte byte = .map width) :
    Token (byte :: toBe width len) (len * 2 % 256 ^ width) :=
  of_counted (fun len => len * 2 % 256 ^ width) hlen hmarker fun _ => rfl

theorem uint (hmarker : Marker.ofByte byte = .uint width) (value : Nat) :
    Token (byte :: toBe width value) 0 :=
  of_bytes hmarker fun input => by rw [length_toBe]; rfl

theorem sint (hmarker : Marker.ofByte byte = .sint width) (value : Nat) :
    Token (byte :: toBe width value) 0 :=
  of_bytes hmarker fun input => by rw [length_toBe]; rfl

theorem float (hmarker : Marker.ofByte byte = .float width) (value : Nat) :
    Token (byte :: toBe width value) 0 :=
  of_bytes hmarker fun input => by rw [length_toBe]; rfl

theorem writeUint (value : Nat) : Token (Proto.writeUint value) 0 := by
  unfold Proto.writeUint
  split
  next h => exact of_body (ofByte_fixPos value h) fun _ => rfl
  next =>
    repeat' split
    all_goals exact uint (by decide) value

theorem writeSint (value : Int) : Token (Proto.writeSint value) 0 := by
  unfold Proto.writeSint
  split
  next => exact writeUint _
  next hneg =>
    split
    next h =>
      obtain ⟨low, hlow, hvalue⟩ : ∃ low : Nat, low < 32 ∧ value = (low : Int) - 32 :=
        ⟨(value + 32).toNat, by omega, by omega⟩
      have hbyte : ofSigned 1 value = 0xe0 + low := by
        rw [ofSigned]
        omega
      have hmod : (0xe0 + low) % 256 = 0xe0 + low := by omega
      rw [hbyte, toBe, toBe, hmod, List.nil_append]
      exact of_body (ofByte_fixNeg low hlow) fun _ => rfl
    next =>
      repeat' split
      all_goals exact sint (by decide) _

theorem writeU8 (value : UInt8) : Token (Proto.writeU8 value) 0 := by
  unfold Proto.writeU8
  split
  next h =>
    have hbyte := ofByte_fixPos value.toNat h
    rw [UInt8.ofNat_toNat] at hbyte
    exact of_body hbyte fun _ => rfl
  next =>
    have hmarker : Marker.ofByte 0xcc = .uint 1 := by decide
    exact of_bytes hmarker fun _ => rfl

theorem writeBinLen (hlen : data.length < 2 ^ 32) :
    Token (Proto.writeBinLen data.length ++ data) 0 := by
  unfold Proto.writeBinLen
  rw [Nat.mod_eq_of_lt hlen]
  dsimp only
  split
  next h => exact bin (by omega) (by decide)
  next =>
    split
    next h => exact bin (by omega) (by decide)
    next h => exact bin (by omega) (by decide)

theorem writeStr {text : String} (hlen : (utf8 text).length < 2 ^ 32) :
    Token (Proto.writeStr text) 0 := by
  unfold Proto.writeStr
  rw [Nat.mod_eq_of_lt hlen]
  dsimp only
  split
  next h => exact of_bytes (ofByte_fixStr _ h) fun _ => rfl
  next =>
    split
    next h => exact str (by omega) (by decide)
    next =>
      split
      next h => exact str (by omega) (by decide)
      next h => exact str (by omega) (by decide)

theorem writeArrayLen (hlen : len < 2 ^ 32) : Token (Proto.writeArrayLen len) len := by
  unfold Proto.writeArrayLen
  split
  next h => exact of_body (ofByte_fixArray len h) fun _ => rfl
  next =>
    split
    next h => exact array h (by decide)
    next h => exact array hlen (by decide)

/-- The counts of maps that are doubled without a cut. -/
def Doubles (count : Nat) : Prop := count < 32768 ∨ 65536 ≤ count ∧ count < 2 ^ 31

/-- Skipping expects two values for each entry, unless the doubled count is cut. -/
theorem writeMapLen (hlen : len < 2 ^ 32) :
    ∃ inner lack, Token (Proto.writeMapLen len) inner ∧ inner + lack = 2 * len ∧
      (lack = 0 ↔ Doubles len) := by
  unfold Proto.writeMapLen Doubles
  rw [Nat.mod_eq_of_lt hlen]
  dsimp only
  split
  next h =>
    exact ⟨len * 2, 0, of_body (ofByte_fixMap len h) fun _ => rfl, by omega, by omega⟩
  next =>
    split
    next h =>
      refine ⟨len * 2 % 65536, 2 * len - len * 2 % 65536, ?_, by omega, by omega⟩
      exact map h (by decide)
    next h =>
      refine ⟨len * 2 % 4294967296, 2 * len - len * 2 % 4294967296, ?_, by omega, by omega⟩
      exact map hlen (by decide)

end Token

/-- One token with the values inside it. -/
theorem Stream.single {head rest : Bytes} {lack missed : Nat} (htoken : Token head inner)
    (hrest : Stream (inner + lack) missed rest) : Stream 1 (lack + missed) (head ++ rest) :=
  .token htoken hrest

theorem Stream.of_token {head : Bytes} (htoken : Token head 0) : Stream 1 0 head := by
  have hstream : Stream 1 (0 + 0) (head ++ []) := Stream.single htoken .nil
  rwa [List.append_nil] at hstream

/-! ## What the encoders write -/

/-- The bytes of a value are `count` values, of which skipping misses none if and only if a
condition holds of the value. -/
structure Spans {α : Type} (count : Nat) (write : α → Option Bytes) (uncut skipped : α → Prop) :
    Prop where
  stream : ∀ {value bytes}, write value = some bytes → uncut value →
    ∃ missed, Stream count missed bytes ∧ (missed = 0 ↔ skipped value)

theorem Token.int128 {value : BitVec 128} {bytes : Bytes}
    (hwrite : ToxProto.int128.serialize value = some bytes) : Token bytes 0 := by
  have hbytes : writeBin (toBe 16 value.toNat).reverse = bytes := Option.some.inj hwrite
  have hlen := ToxProto.length_reverse_toBe value
  generalize (toBe 16 value.toNat).reverse = data at hlen hbytes
  rw [← hbytes, writeBin_eq]
  refine .writeBinLen ?_
  rw [hlen]
  decide

theorem Token.bool {byte : UInt8} (hmarker : Marker.ofByte byte = .bool) : Token [byte] 0 :=
  .of_body hmarker fun _ => rfl

theorem Scalar.spans (kind : Scalar) : Spans 1 kind.impl.serialize kind.Fits kind.Fits := by
  have htoken : ∀ {value bytes}, kind.impl.serialize value = some bytes → kind.Fits value →
      Token bytes 0 := by
    intro value bytes hwrite hfits
    cases kind with
    | u8 | u16 | u32 | u64 | usize =>
        cases hwrite
        exact .writeUint _
    | i8 | i16 | i32 | i64 | isize =>
        cases hwrite
        exact .writeSint _
    | u128 | i128 => exact .int128 hwrite
    | f32 | f64 =>
        cases hwrite
        exact .float (by decide) _
    | char =>
        cases hwrite
        exact .writeUint _
    | bool =>
        cases hwrite
        cases value with
        | true | false => exact .bool (by decide)
    | string =>
        cases hwrite
        exact .writeStr hfits
  constructor
  intro value bytes hwrite hfits
  exact ⟨0, .of_token (htoken hwrite hfits), iff_of_true rfl hfits⟩

section Sequences

variable {α β : Type} {write : α → Option Bytes} {other : β → Option Bytes}
  {uncut skipped : α → Prop} {uncutOther skippedOther : β → Prop} {count more : Nat}

theorem Spans.both (h : Spans count write uncut skipped)
    (hother : Spans more other uncutOther skippedOther) :
    Spans (count + more)
      (fun value : α × β => do
        let first ← write value.1
        let second ← other value.2
        some (first ++ second))
      (FitsBoth uncut uncutOther) (FitsBoth skipped skippedOther) := by
  constructor
  rintro ⟨left, right⟩ bytes hwrite ⟨hleft, hright⟩
  obtain ⟨first, hfirst, hwrite⟩ := Option.bind_eq_some_iff.mp hwrite
  obtain ⟨second, hsecond, heq⟩ := Option.bind_eq_some_iff.mp hwrite
  cases heq
  obtain ⟨missed, hstream, hiff⟩ := h.stream hfirst hleft
  obtain ⟨lost, hothers, hiffOther⟩ := hother.stream hsecond hright
  refine ⟨missed + lost, hstream.append hothers, ?_⟩
  rw [Nat.add_eq_zero_iff, hiff, hiffOther]
  rfl

theorem Spans.each (h : Spans count write uncut skipped) {values : List α} {bytes : Bytes}
    (hwrite : writeEach write values = some bytes) (huncut : ∀ value ∈ values, uncut value) :
    ∃ missed, Stream (count * values.length) missed bytes ∧
      (missed = 0 ↔ ∀ value ∈ values, skipped value) := by
  induction values generalizing bytes with
  | nil =>
      cases hwrite
      exact ⟨0, .nil, by simp⟩
  | cons value values ih =>
      rw [writeEach] at hwrite
      obtain ⟨first, hfirst, hwrite⟩ := Option.bind_eq_some_iff.mp hwrite
      obtain ⟨others, hothers, heq⟩ := Option.bind_eq_some_iff.mp hwrite
      cases heq
      rw [List.forall_mem_cons] at huncut
      obtain ⟨missed, hstream, hiff⟩ := h.stream hfirst huncut.1
      obtain ⟨lost, hrest, hiffRest⟩ := ih hothers huncut.2
      refine ⟨missed + lost, ?_, ?_⟩
      · rw [List.length_cons, Nat.mul_succ, Nat.add_comm (count * values.length)]
        exact hstream.append hrest
      · rw [Nat.add_eq_zero_iff, hiff, hiffRest, List.forall_mem_cons]

/-- An array of values. -/
theorem Spans.counted (h : Spans 1 write uncut skipped) {γ : Type} (items : γ → List α) :
    Spans 1
      (fun whole => (writeEach write (items whole)).map (writeLen (items whole).length ++ ·))
      (fun whole => FitsCounted uncut (items whole))
      (fun whole => FitsCounted skipped (items whole)) := by
  constructor
  rintro whole bytes hwrite ⟨hlt, huncut⟩
  obtain ⟨data, hdata, rfl⟩ := Option.map_eq_some_iff.mp hwrite
  obtain ⟨missed, hstream, hiff⟩ := h.each hdata huncut
  have htoken : Token (writeLen (items whole).length) (items whole).length := by
    rw [writeLen, Nat.mod_eq_of_lt hlt]
    exact .writeArrayLen hlt
  rw [Nat.one_mul] at hstream
  have hwhole : Stream 1 (0 + missed) (writeLen (items whole).length ++ data) :=
    .single htoken hstream
  rw [Nat.zero_add] at hwhole
  refine ⟨missed, hwhole, hiff.trans ?_⟩
  exact (and_iff_right hlt).symm

theorem Spans.option {item : ToxProto α} (h : Spans 1 item.serialize uncut skipped) :
    Spans 1 item.option.serialize (FitsOption uncut) (FitsOption skipped) := by
  constructor
  intro value bytes hwrite huncut
  cases value with
  | none =>
      cases hwrite
      exact ⟨0, .of_token (.writeArrayLen (by decide)), iff_of_true rfl trivial⟩
  | some value =>
      obtain ⟨data, hdata, rfl⟩ := Option.map_eq_some_iff.mp hwrite
      obtain ⟨missed, hstream, hiff⟩ := h.stream hdata huncut
      have hwhole : Stream 1 (0 + missed) (writeArrayLen 1 ++ data) :=
        .single (.writeArrayLen (by decide)) hstream
      rw [Nat.zero_add] at hwhole
      exact ⟨missed, hwhole, hiff⟩

/-- An array of a number and one value. -/
theorem Stream.variant {idx : UInt8} {missed : Nat} {data : Bytes} (h : Stream 1 missed data) :
    Stream 1 missed (writeArrayLen 2 ++ writeU8 idx ++ data) := by
  have hpair : Stream (1 + 1) (0 + missed) (writeU8 idx ++ data) :=
    (Stream.of_token (.writeU8 idx)).append h
  have hwhole : Stream 1 (0 + (0 + missed)) (writeArrayLen 2 ++ (writeU8 idx ++ data)) :=
    .single (.writeArrayLen (by decide)) hpair
  rwa [Nat.zero_add, Nat.zero_add, ← List.append_assoc] at hwhole

theorem Spans.result {ok : ToxProto α} {err : ToxProto β}
    (h : Spans 1 ok.serialize uncut skipped)
    (hother : Spans 1 err.serialize uncutOther skippedOther) :
    Spans 1 (ok.result err).serialize (Sum.elim uncut uncutOther)
      (Sum.elim skipped skippedOther) := by
  constructor
  intro value bytes hwrite huncut
  cases value with
  | inl value =>
      obtain ⟨data, hdata, rfl⟩ := Option.map_eq_some_iff.mp hwrite
      obtain ⟨missed, hstream, hiff⟩ := h.stream hdata huncut
      exact ⟨missed, hstream.variant, hiff⟩
  | inr value =>
      obtain ⟨data, hdata, rfl⟩ := Option.map_eq_some_iff.mp hwrite
      obtain ⟨missed, hstream, hiff⟩ := hother.stream hdata huncut
      exact ⟨missed, hstream.variant, hiff⟩

end Sequences

/-! ## All types -/

namespace Program

/-- The values whose lengths fit their headers. -/
def uncut : Limits where
  entries count := count < 2 ^ 32
  last _ := True
  unknown _ _ := True

/-- Those of them with maps whose doubled counts are not cut. -/
def skippable : Limits where
  entries count := Token.Doubles count
  last _ := True
  unknown _ _ := True

end Program

section Layer

variable {program : Program} {F : Ty → Type} {parts : ∀ ty, ToxProto (F ty)}
  {fits skips : ∀ ty, F ty → Prop}

theorem spans_vec (hflat : program.Flattens parts) {item : Ty}
    (h : Spans 1 (parts item).serialize (fits item) (skips item)) :
    Spans 1 (parts item).vec.serialize ((parts item).FitsVec (fits item))
      ((parts item).FitsVec (skips item)) := by
  unfold ToxProto.FitsVec
  by_cases hsize : (parts item).size = some 1
  · simp only [hsize, if_true]
    constructor
    intro values bytes hwrite hlt
    rw [hflat.size] at hsize
    obtain ⟨data, hdata, hlen, -⟩ := (hflat.flat hsize).memory values
    rw [← hflat.size] at hsize
    simp only [ToxProto.vec, hsize, if_true, hdata, Option.map_some, Option.some.injEq] at hwrite
    subst hwrite
    rw [writeBin_eq]
    exact ⟨0, .of_token (.writeBinLen (hlen ▸ hlt)), iff_of_true rfl hlt⟩
  · simp only [ToxProto.vec, hsize, if_false]
    exact h.counted id

section Fields

variable (h : ∀ ty, Spans 1 (parts ty).serialize (fits ty) (skips ty))

include h

theorem spans_fields (tys : List Ty) :
    Spans tys.length (eachImpl parts tys).serialize (FitsEach fits tys) (FitsEach skips tys) := by
  induction tys with
  | nil =>
      constructor
      rintro value bytes ⟨⟩ -
      exact ⟨0, .nil, iff_of_true rfl trivial⟩
  | cons ty tys ih =>
      rw [List.length_cons, Nat.add_comm]
      exact (h ty).both ih

theorem spans_array (tys : List Ty) :
    Spans 1 (fun value => ((eachImpl parts tys).serialize value).map
        (writeArrayLen (eachImpl parts tys).count ++ ·)) (FitsArray fits tys)
      (FitsArray skips tys) := by
  constructor
  rintro value bytes hwrite ⟨hlt, huncut⟩
  obtain ⟨data, hdata, rfl⟩ := Option.map_eq_some_iff.mp hwrite
  obtain ⟨missed, hstream, hiff⟩ := (spans_fields h tys).stream hdata huncut
  have hcount : (eachImpl parts tys).count = tys.length := Program.Flattens.count_eachImpl tys
  have hwhole : Stream 1 (0 + missed) (writeArrayLen tys.length ++ data) :=
    .single (.writeArrayLen hlt) hstream
  rw [Nat.zero_add] at hwhole
  rw [hcount]
  exact ⟨missed, hwhole, hiff.trans (and_iff_right hlt).symm⟩

theorem spans_payload (tys : List Ty) :
    Spans 1 (Variants.writePayload (eachImpl parts tys)) (FitsPayload fits tys)
      (FitsPayload skips tys) := by
  have hcount : (eachImpl parts tys).count = tys.length := Program.Flattens.count_eachImpl tys
  unfold Variants.writePayload FitsPayload
  rw [hcount]
  by_cases hone : tys.length = 1
  · have hfields := spans_fields h tys
    simp only [hone, if_true] at hfields ⊢
    exact hfields
  · have harray := spans_array h tys
    rw [hcount] at harray
    simp only [hone, if_false]
    exact harray

theorem spans_choice (variants : List VariantDecl) :
    Spans 1 (choiceImpl parts variants).serialize (FitsChoice fits variants)
      (FitsChoice skips variants) := by
  induction variants with
  | nil => exact ⟨fun {value} => value.elim⟩
  | cons variant variants ih =>
      constructor
      intro value bytes hwrite huncut
      cases variant with
      | unit idx =>
          cases value with
          | inl value =>
              cases hwrite
              exact ⟨0, .of_token (.writeU8 idx), iff_of_true rfl trivial⟩
          | inr value => exact ih.stream hwrite huncut
      | payload idx tys =>
          cases value with
          | inl value =>
              obtain ⟨payload, hpayload, rfl⟩ := Option.map_eq_some_iff.mp hwrite
              obtain ⟨missed, hstream, hiff⟩ := (spans_payload h tys).stream hpayload huncut
              exact ⟨missed, hstream.variant, hiff⟩
          | inr value => exact ih.stream hwrite huncut

omit h in
/-- The content of a catch-all variant is one value, in which nothing is missed. -/
theorem stream_unknown {unknown : Unknown}
    (hdata : unknown.data = [] ∨ IsValue unknown.data) :
    Stream 1 0 (ToxProto.writeUnknown unknown) := by
  obtain ⟨discriminant, data⟩ := unknown
  rcases hdata with hnil | hone
  · cases hnil
    exact .of_token (.writeU8 _)
  · obtain ⟨front, heq, hstream⟩ := Stream.of_skips hone
    rw [List.append_nil] at heq
    subst heq
    have hne : data ≠ [] := hone.ne_nil
    simp only [ToxProto.writeUnknown, List.isEmpty_iff, if_neg hne]
    exact hstream.variant

theorem spans_flat (hflat : program.Flattens parts) (first next : Ty) (rest : List Ty) :
    Spans 1 (ToxProto.flat (parts first) (eachImpl parts (next :: rest))).serialize
      (FitsFlat parts Program.uncut fits first (next :: rest))
      (FitsFlat parts Program.skippable skips first (next :: rest)) := by
  have hmany : (Fields.cons (parts first) (eachImpl parts (next :: rest))).count ≠ 1 :=
    (Nat.lt_add_of_pos_left (Nat.succ_pos _)).ne'
  simp only [ToxProto.flat, if_neg hmany]
  cases hbyte : (Fields.cons (parts first) (eachImpl parts (next :: rest))).isByteLike with
  | true =>
      simp only [if_true, fitsFlat_bytes hbyte]
      constructor
      rintro value bytes hwrite ⟨-, total, htotal, hlt⟩
      obtain ⟨again, hagain, hwrite⟩ := Option.bind_eq_some_iff.mp hwrite
      obtain ⟨data, hdata, heq⟩ := Option.bind_eq_some_iff.mp hwrite
      cases heq
      cases Option.some.inj (htotal.symm.trans hagain)
      have hlen : data.length = total := hflat.written_fields htotal hdata
      subst hlen
      exact ⟨0, .of_token (.writeBinLen hlt), iff_of_true rfl ⟨trivial, _, htotal, hlt⟩⟩
  | false =>
      simp only [Bool.false_eq_true, if_false, fitsFlat_array hbyte]
      exact spans_array h (first :: next :: rest)

theorem spans_decl (hflat : program.Flattens parts) (decl : Decl) :
    Spans 1 (declImpl parts decl).serialize (FitsDecl parts Program.uncut fits decl)
      (FitsDecl parts Program.skippable skips decl) := by
  cases decl with
  | struct tys => exact spans_array h tys
  | flat first rest =>
      cases rest with
      | nil =>
          constructor
          intro value bytes hwrite huncut
          obtain ⟨data, hdata, hwrite⟩ := Option.bind_eq_some_iff.mp hwrite
          obtain ⟨others, hothers, heq⟩ := Option.bind_eq_some_iff.mp hwrite
          cases heq
          cases hothers
          rw [List.append_nil]
          exact (h first).stream hdata huncut
      | cons next rest => exact spans_flat h hflat first next rest
  | enum variants hdistinct => exact spans_choice h variants
  | openEnum variants hdistinct =>
      constructor
      intro value bytes hwrite huncut
      cases value with
      | inl value => exact (spans_choice h variants).stream hwrite huncut
      | inr unknown =>
          cases hwrite
          exact ⟨0, stream_unknown huncut.2, iff_of_true rfl ⟨trivial, huncut.2⟩⟩

omit h in
/-- A map: its header counts the entries, which are two values each. -/
theorem spans_map {key value : Ty} [DecidableEq (F key)]
    (hkey : Spans 1 (parts key).serialize (fits key) (skips key))
    (hvalue : Spans 1 (parts value).serialize (fits value) (skips value)) :
    Spans 1 ((parts key).map (parts value)).serialize
      (fun entries => Program.uncut.entries entries.size ∧
        ∀ entry ∈ entries.entries, FitsBoth (fits key) (fits value) entry)
      (fun entries => Program.skippable.entries entries.size ∧
        ∀ entry ∈ entries.entries, FitsBoth (skips key) (skips value) entry) := by
  constructor
  rintro entries bytes hwrite ⟨hlt, huncut⟩
  obtain ⟨data, hdata, rfl⟩ := Option.map_eq_some_iff.mp hwrite
  obtain ⟨missed, hstream, hiff⟩ := (hkey.both hvalue).each hdata huncut
  obtain ⟨inner, lack, htoken, hinner, hdoubles⟩ := Token.writeMapLen hlt
  refine ⟨lack + missed, .single htoken (hinner ▸ hstream), ?_⟩
  rw [Nat.add_eq_zero_iff, hdoubles, hiff]
  rfl

omit h in
theorem spans_set {item : Ty} [DecidableEq (F item)]
    (h : Spans 1 (parts item).serialize (fits item) (skips item)) :
    Spans 1 (parts item).set.serialize (fun items => FitsCounted (fits item) items.keys)
      (fun items => FitsCounted (skips item) items.keys) := by
  constructor
  intro items bytes hwrite huncut
  refine (h.counted AssocMap.keys).stream ?_ huncut
  rw [← hwrite, AssocMap.keys, List.length_map]
  rfl

/-- Every type writes one value. -/
theorem spans_ty [∀ ty, DecidableEq (F ty)] (hflat : program.Flattens parts) (ty : Ty) :
    Spans 1 (tyImpl parts program.decl ty).serialize
      (FitsTy parts Program.uncut fits program.decl ty)
      (FitsTy parts Program.skippable skips program.decl ty) := by
  cases ty with
  | scalar kind => exact kind.spans
  | vec item => exact spans_vec hflat (h item)
  | deque item => exact (h item).counted id
  | array item len =>
      constructor
      intro values bytes hwrite huncut
      have hvec : (parts item).vec.serialize values.1 = some bytes :=
        (ToxProto.serialize_array values).symm.trans hwrite
      exact (spans_vec hflat (h item)).stream hvec huncut
  | tuple tys => exact spans_array h tys
  | option item => exact (h item).option
  | result ok err => exact (h ok).result (h err)
  | map key value => exact spans_map (h key) (h value)
  | set item => exact spans_set (h item)
  | named name => exact spans_decl h hflat (program.decl name)

end Fields

end Layer

/-- Skipping finds the end of a value whose lengths fit if and only if no doubled count is cut. -/
theorem Program.spans (program : Program) (depth : Nat) (ty : Ty) :
    Spans 1 (program.impl depth ty).serialize (program.Fits Program.uncut depth ty)
      (program.Fits Program.skippable depth ty) := by
  induction depth generalizing ty with
  | zero => exact ⟨fun {value} => value.elim⟩
  | succ depth ih => exact spans_ty ih (program.flattens depth) ty

end MerkleTox.Proto
