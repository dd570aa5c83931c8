import MerkleTox.Proto.Encodings

/-! # What is written is read back

The encoder and the decoder that the derive macros put together for a type agree on exactly
the values that fit. The proof follows the layers: fields, arrays and variants of a type
from the parts of the depth below.
-/

namespace MerkleTox.Proto

open Library

variable {idx : UInt8} {header bytes : Bytes} {unknown : Unknown}

/-! ## Headers -/

theorem toBe_mod (width n : Nat) : toBe width (n % 256 ^ width) = toBe width n := by
  induction width generalizing n with
  | zero => rfl
  | succ width ih =>
      have hdiv : n % 256 ^ (width + 1) / 256 = n / 256 % 256 ^ width := by
        rw [pow_succ', Nat.mod_mul_right_div_self]
      have hmod : n % 256 ^ (width + 1) % 256 = n % 256 :=
        Nat.mod_mod_of_dvd n (Dvd.intro_left _ (pow_succ 256 width).symm)
      rw [toBe, toBe, hdiv, hmod, ih]

/-- The length of an array is read as the header can hold it. -/
theorem readArrayLen_writeArrayLen_mod (len : Nat) (rest : Bytes) :
    ∃ found, readArrayLen (writeArrayLen len ++ rest) = some (found, rest) ∧ found < 2 ^ 32 ∧
      found ≤ len := by
  by_cases hlen : len < 2 ^ 32
  · exact ⟨len, readArrayLen_writeArrayLen rest hlen, hlen, le_rfl⟩
  · have hlt : len % 256 ^ 4 < 256 ^ 4 := Nat.mod_lt _ (by norm_num)
    refine ⟨len % 256 ^ 4, ?_, by simpa using hlt, Nat.mod_le _ _⟩
    have hwrite : writeArrayLen len = 0xdd :: toBe 4 (len % 256 ^ 4) := by
      rw [toBe_mod, writeArrayLen, if_neg (by omega), if_neg (by omega)]
    rw [hwrite, List.cons_append, readArrayLen, readMarker_cons]
    simp only [Marker.ofByte]
    exact readBe_toBe_append 4 hlt rest

/-- The header of a variant: its discriminant alone, or in an array of two. -/
inductive VariantHeader (idx : UInt8) : Nat → Bytes → Prop
  | unit : VariantHeader idx 1 (writeU8 idx)
  | payload : VariantHeader idx 2 (writeArrayLen 2 ++ writeU8 idx)

theorem VariantHeader.read {len : Nat} (h : VariantHeader idx len header) (rest : Bytes) :
    readEnumHeader (header ++ rest) = some ((idx.toNat, len), rest) := by
  cases h with
  | unit => exact readEnumHeader_unit rest idx
  | payload =>
      rw [List.append_assoc]
      exact readEnumHeader_variant rest idx

/-! ## Catch-all variants -/

section Unknown

variable {α : Type} {variants : Variants α}

/-- The arms are tried for a known discriminant; otherwise the values are captured. -/
theorem deserialize_openEnum {len : Nat} (hheader : VariantHeader idx len header) (input : Bytes) :
    (ToxProto.openEnum variants).deserialize (header ++ input) =
      if variants.knows idx.toNat then
        (variants.deserialize idx.toNat len input).map fun (value, rest) => (.inl value, rest)
      else
        (captureValues (len - 1) input).map fun (data, rest) =>
          (.inr ⟨BitVec.ofNat 32 idx.toNat, data⟩, rest) := by
  simp only [ToxProto.openEnum, hheader.read, Option.bind_eq_bind, Option.bind_some]

/-- The header that the encoder writes for a catch-all variant. -/
theorem writeUnknown_eq (unknown : Unknown) :
    ∃ len header, VariantHeader (UInt8.ofNat unknown.discriminant.toNat) len header ∧
      ToxProto.writeUnknown unknown = header ++ unknown.data ∧
        (unknown.data = [] ∧ len = 1 ∨ unknown.data ≠ [] ∧ len = 2) := by
  obtain ⟨discriminant, data⟩ := unknown
  cases data with
  | nil => exact ⟨1, _, .unit, (List.append_nil _).symm, .inl ⟨rfl, rfl⟩⟩
  | cons byte data => exact ⟨2, _, .payload, rfl, .inr ⟨List.cons_ne_nil byte data, rfl⟩⟩

/-- The content of a catch-all variant that is read back: a discriminant without an arm, and
no value or one. -/
def Variants.Keeps (variants : Variants α) (unknown : Unknown) : Prop :=
  (unknown.discriminant.toNat < 256 ∧ variants.knows unknown.discriminant.toNat = false) ∧
    (unknown.data = [] ∨ IsValue unknown.data)

theorem reads_unknown (hkeeps : variants.Keeps unknown) (rest : Bytes) :
    (ToxProto.openEnum variants).deserialize (ToxProto.writeUnknown unknown ++ rest) =
      some (.inr unknown, rest) := by
  obtain ⟨⟨hlt, hknown⟩, hdata⟩ := hkeeps
  obtain ⟨len, header, hheader, hbytes, hlen⟩ := writeUnknown_eq unknown
  have hidx : (UInt8.ofNat unknown.discriminant.toNat).toNat = unknown.discriminant.toNat := by
    rw [UInt8.toNat_ofNat', Nat.mod_eq_of_lt hlt]
  have hcapture : captureValues (len - 1) (unknown.data ++ rest) = some (unknown.data, rest) := by
    rcases hlen with ⟨hnil, rfl⟩ | ⟨hne, rfl⟩
    · rw [hnil]
      rfl
    · exact captureValues_value (hdata.resolve_left hne)
  rw [hbytes, List.append_assoc, deserialize_openEnum hheader, hidx, hknown, hcapture,
    BitVec.ofNat_toNat, BitVec.setWidth_eq]
  rfl

theorem returned_unknown {rest out : Bytes}
    (hread : (ToxProto.openEnum variants).deserialize (ToxProto.writeUnknown unknown ++ rest) =
      some (.inr unknown, out)) : variants.Keeps unknown := by
  obtain ⟨len, header, hheader, hbytes, hlen⟩ := writeUnknown_eq unknown
  rw [hbytes, List.append_assoc, deserialize_openEnum hheader] at hread
  cases hknown : variants.knows (UInt8.ofNat unknown.discriminant.toNat).toNat with
  | true =>
      rw [hknown, if_pos rfl] at hread
      obtain ⟨⟨found, last⟩, -, heq⟩ := Option.map_eq_some_iff.mp hread
      cases heq
  | false =>
      rw [hknown, if_neg Bool.false_ne_true] at hread
      obtain ⟨⟨data, last⟩, hcapture, heq⟩ := Option.map_eq_some_iff.mp hread
      obtain ⟨hsame, hlast⟩ := Prod.mk.inj heq
      have hunknown := Sum.inr.inj hsame
      have hdiscriminant : BitVec.ofNat 32 (UInt8.ofNat unknown.discriminant.toNat).toNat =
          unknown.discriminant := congrArg Unknown.discriminant hunknown
      have hdata : data = unknown.data := congrArg Unknown.data hunknown
      have hidx : (UInt8.ofNat unknown.discriminant.toNat).toNat =
          unknown.discriminant.toNat := by
        rw [← BitVec.toNat_inj, BitVec.toNat_ofNat] at hdiscriminant
        have hlt := (UInt8.ofNat unknown.discriminant.toNat).toNat_lt
        omega
      refine ⟨⟨hidx ▸ UInt8.toNat_lt _, hidx ▸ hknown⟩, ?_⟩
      rcases hlen with ⟨hnil, -⟩ | ⟨-, rfl⟩
      · exact .inl hnil
      · subst hdata
        exact .inr (captureValues_eq_some hcapture).2

end Unknown

section Layer

variable {program : Program} {F : Ty → Type} {parts : ∀ ty, ToxProto (F ty)}
  {fits : ∀ ty, F ty → Prop} {encodes : ∀ ty, F ty → Bytes → Prop}

/-! ## Fields and arrays -/

section Fields

variable (h : ∀ ty, Faithful (parts ty).serialize (parts ty).deserialize (fits ty) (encodes ty))

include h

theorem faithful_fields (tys : List Ty) :
    Faithful (eachImpl parts tys).serialize (eachImpl parts tys).deserialize (FitsEach fits tys)
      (EncodesFields encodes tys) := by
  induction tys with
  | nil =>
      constructor
      · rintro value bytes rfl rest
        rfl
      · intro value _
        exact ⟨[], rfl, rfl⟩
      · intro value bytes rest out _ _
        trivial
  | cons ty tys ih => exact (h ty).both ih

/-- The array form: the reader skips what is behind the fields. -/
theorem faithful_array (tys : List Ty) :
    Faithful (fun value => ((eachImpl parts tys).serialize value).map
        (writeArrayLen (eachImpl parts tys).count ++ ·))
      (ToxProto.readExtensible (eachImpl parts tys)) (FitsArray fits tys)
      (EncodesArray encodes tys) := by
  have hfields := faithful_fields h tys
  have hcount : (eachImpl parts tys).count = tys.length := Program.Flattens.count_eachImpl tys
  constructor
  · rintro value bytes ⟨hdata, hextras, hlen⟩ rest
    rename_i data extras
    have hheader := readArrayLen_writeArrayLen (data ++ extras.flatten ++ rest) hlen
    have hread := hfields.reads value data hdata (extras.flatten ++ rest)
    have hskip := skips_iff.mp (IsValue.skips_flatten hextras rest)
    rw [List.append_assoc, ToxProto.readExtensible, hheader, Option.bind_eq_bind, Option.bind_some]
    simp only [hcount]
    rw [if_neg (by omega), List.append_assoc, hread, Option.bind_eq_bind, Option.bind_some,
      Nat.add_sub_cancel_left, hskip]
    rfl
  · rintro value ⟨hlen, hvalue⟩
    obtain ⟨data, hdata, hencodes⟩ := hfields.written value hvalue
    refine ⟨writeArrayLen tys.length ++ data, ?_, ?_⟩
    · rw [hdata, hcount]
      rfl
    · have harray : EncodesArray encodes tys value
          (writeArrayLen (tys.length + ([] : List Bytes).length) ++ (data ++ [].flatten)) :=
        .intro hencodes (by simp) hlen
      simpa using harray
  · intro value bytes rest out hwrite hread
    obtain ⟨data, hdata, rfl⟩ := Option.map_eq_some_iff.mp hwrite
    obtain ⟨found, hfound, hlt, hle⟩ := readArrayLen_writeArrayLen_mod tys.length (data ++ rest)
    rw [hcount, List.append_assoc, ToxProto.readExtensible, hfound, Option.bind_eq_bind,
      Option.bind_some] at hread
    simp only [hcount] at hread
    split at hread
    next => cases hread
    next hge =>
      obtain ⟨⟨again, middle⟩, hagain, hread⟩ := Option.bind_eq_some_iff.mp hread
      obtain ⟨last, -, heq⟩ := Option.bind_eq_some_iff.mp hread
      cases heq
      exact ⟨by omega, hfields.returned hdata hagain⟩

theorem faithful_tuple (tys : List Ty) :
    Faithful (ToxProto.tuple (eachImpl parts tys)).serialize
      (ToxProto.tuple (eachImpl parts tys)).deserialize (FitsArray fits tys)
      (EncodesTuple encodes tys) := by
  have hfields := faithful_fields h tys
  have hcount : (eachImpl parts tys).count = tys.length := Program.Flattens.count_eachImpl tys
  constructor
  · rintro value bytes ⟨hdata, hlen⟩ rest
    rename_i data
    have hheader := readArrayLen_writeArrayLen (data ++ rest) hlen
    simp only [ToxProto.tuple, List.append_assoc, hheader, Option.bind_eq_bind, Option.bind_some,
      hcount, ne_eq, not_true_eq_false, if_false]
    exact hfields.reads value data hdata rest
  · rintro value ⟨hlen, hvalue⟩
    obtain ⟨data, hdata, hencodes⟩ := hfields.written value hvalue
    refine ⟨writeArrayLen tys.length ++ data, ?_, .intro hencodes hlen⟩
    simp only [ToxProto.tuple, hdata, hcount, Option.map_some]
  · intro value bytes rest out hwrite hread
    obtain ⟨data, hdata, rfl⟩ := Option.map_eq_some_iff.mp hwrite
    obtain ⟨found, hfound, hlt, -⟩ := readArrayLen_writeArrayLen_mod tys.length (data ++ rest)
    simp only [ToxProto.tuple, hcount, List.append_assoc, hfound, Option.bind_eq_bind,
      Option.bind_some] at hread
    split at hread
    next => cases hread
    next heq =>
      rw [not_not] at heq
      exact ⟨heq ▸ hlt, hfields.returned hdata hread⟩

theorem faithful_payload (tys : List Ty) :
    Faithful (Variants.writePayload (eachImpl parts tys))
      (Variants.readPayload (eachImpl parts tys)) (FitsPayload fits tys)
      (EncodesPayload encodes tys) := by
  have hcount : (eachImpl parts tys).count = tys.length := Program.Flattens.count_eachImpl tys
  unfold Variants.writePayload Variants.readPayload FitsPayload EncodesPayload
  rw [hcount]
  by_cases hone : tys.length = 1
  · simp only [hone, if_true]
    exact faithful_fields h tys
  · have harray := faithful_array h tys
    simp only [hone, if_false]
    rwa [hcount] at harray

/-! ## Variants -/

variable {variants : List VariantDecl} {value : Choice F variants}

/-- An encoding of a variant is its header and what the arm of its discriminant reads. -/
theorem reads_choice (hdistinct : (variants.map VariantDecl.idx).Nodup)
    (hencodes : EncodesChoice encodes variants value bytes) :
    ∃ idx ∈ variants.map VariantDecl.idx, ∃ len header payload, VariantHeader idx len header ∧
      bytes = header ++ payload ∧ ∀ rest, (choiceImpl parts variants).deserialize idx.toNat len
        (payload ++ rest) = some (value, rest) := by
  induction variants with
  | nil => exact value.elim
  | cons variant variants ih =>
      rw [List.map_cons, List.nodup_cons] at hdistinct
      -- Numbers are distinct, so the number of a later variant is not read as this one.
      have hother : ∀ {idx}, idx ∈ variants.map VariantDecl.idx →
          idx.toNat ≠ variant.idx.toNat := by
        intro idx hidx heq
        exact hdistinct.1 (UInt8.toNat_inj.mp heq ▸ hidx)
      cases variant with
      | unit own =>
          cases value with
          | inl value =>
              cases hencodes
              refine ⟨own, List.mem_cons_self, 1, writeU8 own, [], .unit,
                (List.append_nil _).symm, fun rest => ?_⟩
              simp only [choiceImpl, Variants.deserialize, if_true, ne_eq, not_true_eq_false,
                if_false, List.nil_append]
              rfl
          | inr value =>
              obtain ⟨idx, hidx, len, header, payload, hheader, hbytes, hread⟩ :=
                ih hdistinct.2 hencodes
              refine ⟨idx, List.mem_cons_of_mem _ hidx, len, header, payload, hheader, hbytes,
                fun rest => ?_⟩
              have hne : idx.toNat ≠ own.toNat := hother hidx
              simp only [choiceImpl, Variants.deserialize, if_neg hne, hread rest, Option.map_some]
              rfl
      | payload own tys =>
          cases value with
          | inl value =>
              obtain ⟨payload, hpayload, rfl⟩ := hencodes
              refine ⟨own, List.mem_cons_self, 2, _, payload, .payload, rfl, fun rest => ?_⟩
              have hread := (faithful_payload h tys).reads value payload hpayload rest
              simp only [choiceImpl, Variants.deserialize, if_true, ne_eq, not_true_eq_false,
                if_false, hread, Option.map_some]
              rfl
          | inr value =>
              obtain ⟨idx, hidx, len, header, payload, hheader, hbytes, hread⟩ :=
                ih hdistinct.2 hencodes
              refine ⟨idx, List.mem_cons_of_mem _ hidx, len, header, payload, hheader, hbytes,
                fun rest => ?_⟩
              have hne : idx.toNat ≠ own.toNat := hother hidx
              simp only [choiceImpl, Variants.deserialize, if_neg hne, hread rest, Option.map_some]
              rfl

/-- The same of what the encoder writes, with the values that come back. -/
theorem returned_choice (hdistinct : (variants.map VariantDecl.idx).Nodup)
    (hwrite : (choiceImpl parts variants).serialize value = some bytes) :
    ∃ idx ∈ variants.map VariantDecl.idx, ∃ len header payload, VariantHeader idx len header ∧
      bytes = header ++ payload ∧ ∀ {rest out}, (choiceImpl parts variants).deserialize idx.toNat
        len (payload ++ rest) = some (value, out) → FitsChoice fits variants value := by
  induction variants with
  | nil => exact value.elim
  | cons variant variants ih =>
      rw [List.map_cons, List.nodup_cons] at hdistinct
      -- Numbers are distinct, so the number of a later variant is not read as this one.
      have hother : ∀ {idx}, idx ∈ variants.map VariantDecl.idx →
          idx.toNat ≠ variant.idx.toNat := by
        intro idx hidx heq
        exact hdistinct.1 (UInt8.toNat_inj.mp heq ▸ hidx)
      cases variant with
      | unit own =>
          cases value with
          | inl value =>
              cases hwrite
              exact ⟨own, List.mem_cons_self, 1, writeU8 own, [], .unit,
                (List.append_nil _).symm, fun _ => trivial⟩
          | inr value =>
              obtain ⟨idx, hidx, len, header, payload, hheader, hbytes, hfits⟩ :=
                ih hdistinct.2 hwrite
              refine ⟨idx, List.mem_cons_of_mem _ hidx, len, header, payload, hheader, hbytes,
                fun {rest out} hread => ?_⟩
              have hne : idx.toNat ≠ own.toNat := hother hidx
              simp only [choiceImpl, Variants.deserialize, if_neg hne] at hread
              obtain ⟨⟨found, last⟩, hfound, heq⟩ := Option.map_eq_some_iff.mp hread
              cases heq
              exact hfits hfound
      | payload own tys =>
          cases value with
          | inl value =>
              obtain ⟨payload, hpayload, rfl⟩ := Option.map_eq_some_iff.mp hwrite
              refine ⟨own, List.mem_cons_self, 2, _, payload, .payload, rfl,
                fun {rest out} hread => ?_⟩
              simp only [choiceImpl, Variants.deserialize, if_true, ne_eq, not_true_eq_false,
                if_false] at hread
              obtain ⟨⟨found, last⟩, hfound, heq⟩ := Option.map_eq_some_iff.mp hread
              cases heq
              exact (faithful_payload h tys).returned hpayload hfound
          | inr value =>
              obtain ⟨idx, hidx, len, header, payload, hheader, hbytes, hfits⟩ :=
                ih hdistinct.2 hwrite
              refine ⟨idx, List.mem_cons_of_mem _ hidx, len, header, payload, hheader, hbytes,
                fun {rest out} hread => ?_⟩
              have hne : idx.toNat ≠ own.toNat := hother hidx
              simp only [choiceImpl, Variants.deserialize, if_neg hne] at hread
              obtain ⟨⟨found, last⟩, hfound, heq⟩ := Option.map_eq_some_iff.mp hread
              cases heq
              exact hfits hfound

theorem written_choice (hvalue : FitsChoice fits variants value) :
    ∃ bytes, (choiceImpl parts variants).serialize value = some bytes ∧
      EncodesChoice encodes variants value bytes := by
  induction variants with
  | nil => exact value.elim
  | cons variant variants ih =>
      cases variant with
      | unit own =>
          cases value with
          | inl value => exact ⟨_, rfl, rfl⟩
          | inr value => exact ih hvalue
      | payload own tys =>
          cases value with
          | inl value =>
              obtain ⟨payload, hpayload, hencodes⟩ :=
                (faithful_payload h tys).written value hvalue
              refine ⟨writeArrayLen 2 ++ writeU8 own ++ payload, ?_, payload, hencodes, rfl⟩
              simp only [choiceImpl, Variants.serialize, hpayload, Option.map_some]
          | inr value => exact ih hvalue

theorem faithful_enum (hdistinct : (variants.map VariantDecl.idx).Nodup) :
    Faithful (ToxProto.enum (choiceImpl parts variants)).serialize
      (ToxProto.enum (choiceImpl parts variants)).deserialize (FitsChoice fits variants)
      (EncodesChoice encodes variants) where
  reads := by
    intro value bytes hencodes rest
    obtain ⟨idx, -, len, header, payload, hheader, rfl, hread⟩ :=
      reads_choice h hdistinct hencodes
    rw [List.append_assoc]
    simp only [ToxProto.enum, hheader.read, Option.bind_eq_bind, Option.bind_some, hread]
  written _ hvalue := written_choice h hvalue
  returned := by
    intro value bytes rest out hwrite hread
    obtain ⟨idx, -, len, header, payload, hheader, rfl, hfits⟩ :=
      returned_choice h hdistinct hwrite
    rw [List.append_assoc] at hread
    simp only [ToxProto.enum, hheader.read, Option.bind_eq_bind, Option.bind_some] at hread
    exact hfits hread

omit h in
theorem knows_choice (hidx : idx ∈ variants.map VariantDecl.idx) :
    (choiceImpl parts variants).knows idx.toNat = true := by
  induction variants with
  | nil => cases hidx
  | cons variant variants ih =>
      cases variant with
      | unit own | payload own tys =>
          rw [List.map_cons, List.mem_cons] at hidx
          simp only [choiceImpl, Variants.knows, Bool.or_eq_true, beq_iff_eq]
          rcases hidx with rfl | hidx
          · exact .inl rfl
          · exact .inr (ih hidx)

/-- An enumeration with a catch-all variant. -/
theorem faithful_openEnum (hdistinct : (variants.map VariantDecl.idx).Nodup) :
    Faithful (ToxProto.openEnum (choiceImpl parts variants)).serialize
      (ToxProto.openEnum (choiceImpl parts variants)).deserialize
      (FitsDecl parts program.readable fits (.openEnum variants hdistinct))
      (EncodesDecl parts program.readable fits encodes (.openEnum variants hdistinct)) where
  reads := by
    intro value bytes hencodes rest
    cases value with
    | inl value =>
        obtain ⟨idx, hidx, len, header, payload, hheader, rfl, hread⟩ :=
          reads_choice h hdistinct hencodes
        rw [List.append_assoc, deserialize_openEnum hheader, knows_choice hidx, if_pos rfl,
          hread rest]
        rfl
    | inr unknown =>
        obtain ⟨hfits, rfl⟩ := hencodes
        exact reads_unknown hfits rest
  written := by
    intro value hvalue
    cases value with
    | inl value => exact written_choice h hvalue
    | inr unknown => exact ⟨_, rfl, hvalue, rfl⟩
  returned := by
    intro value bytes rest out hwrite hread
    cases value with
    | inl value =>
        obtain ⟨idx, hidx, len, header, payload, hheader, rfl, hfits⟩ :=
          returned_choice h hdistinct hwrite
        rw [List.append_assoc, deserialize_openEnum hheader, knows_choice hidx, if_pos rfl] at hread
        obtain ⟨⟨found, last⟩, hfound, heq⟩ := Option.map_eq_some_iff.mp hread
        cases heq
        exact hfits hfound
    | inr unknown =>
        cases hwrite
        exact returned_unknown hread

end Fields

/-! ## Flat structures -/

/-- The header of a byte string holds its length below `2 ^ 32`, and the length that it holds
is never more. -/
theorem deserialize_concatenation {α : Type} (fields : Fields α) (total : Nat) (data : Bytes) :
    ToxProto.readConcatenation fields (writeBinLen total ++ data) =
      (fields.deserializeFlat (data.take (total % 2 ^ 32))).map fun (value, _) =>
        (value, data.drop (total % 2 ^ 32)) := by
  rw [ToxProto.readConcatenation, readBinLen_writeBinLen, Option.bind_eq_bind, Option.bind_some]
  dsimp only
  cases fields.deserializeFlat (data.take (total % 2 ^ 32)) <;> rfl

/-- One byte string of the flat forms. -/
theorem faithful_concatenation (hflat : program.Flattens parts) (first : Ty) (rest : List Ty)
    (hbyte : (eachImpl parts (first :: rest)).isByteLike = true) :
    Faithful (ToxProto.writeConcatenation (eachImpl parts (first :: rest)))
      (ToxProto.readConcatenation (eachImpl parts (first :: rest)))
      (FitsFlat parts program.readable fits first rest)
      (fun value bytes => FitsFlat parts program.readable fits first rest value ∧
        ToxProto.writeConcatenation (eachImpl parts (first :: rest)) value = some bytes) := by
  have hfits : ∀ value, FitsFlat parts program.readable fits first rest value ↔
      program.Trails ((first :: rest).getLast (List.cons_ne_nil first rest)) ∧
        ∃ total, (eachImpl parts (first :: rest)).flatLen value = some total ∧ total < 2 ^ 32 := by
    intro value
    rw [fitsFlat_bytes hbyte]
    rfl
  have hwritten : ∀ {value bytes},
      ToxProto.writeConcatenation (eachImpl parts (first :: rest)) value = some bytes →
        ∃ total data, (eachImpl parts (first :: rest)).flatLen value = some total ∧
          (eachImpl parts (first :: rest)).serializeFlat value = some data ∧
            bytes = writeBinLen total ++ data := by
    intro value bytes hwrite
    obtain ⟨total, htotal, hwrite⟩ := Option.bind_eq_some_iff.mp hwrite
    obtain ⟨data, hdata, heq⟩ := Option.bind_eq_some_iff.mp hwrite
    cases heq
    exact ⟨total, data, htotal, hdata, rfl⟩
  constructor
  · rintro value bytes ⟨hvalue, hwrite⟩ tail
    obtain ⟨hlast, total, htotal, hlt⟩ := (hfits value).mp hvalue
    obtain ⟨again, data, hagain, hdata, rfl⟩ := hwritten hwrite
    rw [htotal, Option.some.injEq] at hagain
    subst hagain
    obtain ⟨same, left, hsame, hread⟩ := hflat.trails_fields _ hlast htotal
    rw [hdata, Option.some.injEq] at hsame
    subst hsame
    have hlength := hflat.written_fields htotal hdata
    rw [List.append_assoc, deserialize_concatenation, Nat.mod_eq_of_lt hlt, ← hlength,
      List.take_left, List.drop_left, hread]
    rfl
  · intro value hvalue
    obtain ⟨hlast, total, htotal, hlt⟩ := (hfits value).mp hvalue
    obtain ⟨data, -, hdata, -⟩ := hflat.trails_fields _ hlast htotal
    have hwrite : ToxProto.writeConcatenation (eachImpl parts (first :: rest)) value =
        some (writeBinLen total ++ data) := by
      simp only [ToxProto.writeConcatenation, htotal, hdata, Option.bind_eq_bind, Option.bind_some]
    exact ⟨_, hwrite, hvalue, hwrite⟩
  · intro value bytes tail out hwrite hread
    obtain ⟨total, data, htotal, hdata, rfl⟩ := hwritten hwrite
    rw [List.append_assoc, deserialize_concatenation] at hread
    obtain ⟨⟨found, left⟩, hfound, heq⟩ := Option.map_eq_some_iff.mp hread
    cases heq
    -- what is read back has its whole length in front of the end that the header gives
    obtain ⟨hle, hlast⟩ := hflat.read_fields htotal hfound
    refine (hfits _).mpr ⟨hlast _, total, htotal, ?_⟩
    have hheader : total % 2 ^ 32 < 2 ^ 32 := Nat.mod_lt _ (by norm_num)
    rw [List.length_take] at hle
    omega

/-- A flat structure of several fields: a byte string or an array. -/
theorem faithful_flat (hflat : program.Flattens parts)
    (h : ∀ ty, Faithful (parts ty).serialize (parts ty).deserialize (fits ty) (encodes ty))
    (first next : Ty) (rest : List Ty) :
    Faithful (ToxProto.flat (parts first) (eachImpl parts (next :: rest))).serialize
      (ToxProto.flat (parts first) (eachImpl parts (next :: rest))).deserialize
      (FitsFlat parts program.readable fits first (next :: rest))
      (EncodesFlat parts program.readable fits encodes first (next :: rest)) := by
  have hmany : (Fields.cons (parts first) (eachImpl parts (next :: rest))).count ≠ 1 :=
    (Nat.lt_add_of_pos_left (Nat.succ_pos _)).ne'
  simp only [ToxProto.flat, if_neg hmany]
  cases hbyte : (Fields.cons (parts first) (eachImpl parts (next :: rest))).isByteLike with
  | true =>
      have hencodes : EncodesFlat parts program.readable fits encodes first (next :: rest) =
          fun value bytes => FitsFlat parts program.readable fits first (next :: rest) value ∧
            ToxProto.writeConcatenation (eachImpl parts (first :: next :: rest)) value =
              some bytes := by
        funext value bytes
        exact if_pos hbyte
      simp only [if_true, hencodes]
      exact faithful_concatenation hflat first (next :: rest) hbyte
  | false =>
      have hencodes : EncodesFlat parts program.readable fits encodes first (next :: rest) =
          EncodesArray encodes (first :: next :: rest) := by
        funext value bytes
        exact if_neg (ne_true_of_eq_false hbyte)
      simp only [Bool.false_eq_true, if_false, fitsFlat_array hbyte, hencodes]
      exact faithful_array h (first :: next :: rest)

/-- A flat structure of one field is the field. -/
theorem faithful_transparent
    (h : ∀ ty, Faithful (parts ty).serialize (parts ty).deserialize (fits ty) (encodes ty))
    (first : Ty) :
    Faithful (ToxProto.flat (parts first) (eachImpl parts [])).serialize
      (ToxProto.flat (parts first) (eachImpl parts [])).deserialize
      (fun value : F first × Each F [] => fits first value.1)
      (fun value bytes => encodes first value.1 bytes) := by
  have hfields := faithful_fields h [first]
  constructor
  · intro value bytes hencodes rest
    have hpair : EncodesFields encodes [first] value bytes :=
      ⟨bytes, [], hencodes, rfl, (List.append_nil bytes).symm⟩
    exact hfields.reads value bytes hpair rest
  · intro value hvalue
    obtain ⟨data, hdata, hencodes⟩ := (h first).written value.1 hvalue
    refine ⟨data ++ [], Option.bind_eq_some_iff.mpr ⟨data, hdata, rfl⟩, ?_⟩
    rwa [List.append_nil]
  · intro value bytes rest out hwrite hread
    exact (hfields.returned hwrite hread).1

/-- The implementation of a type is faithful when those for the depth below are. -/
theorem faithful_decl (hflat : program.Flattens parts)
    (h : ∀ ty, Faithful (parts ty).serialize (parts ty).deserialize (fits ty) (encodes ty))
    (decl : Decl) :
    Faithful (declImpl parts decl).serialize (declImpl parts decl).deserialize
      (FitsDecl parts program.readable fits decl)
      (EncodesDecl parts program.readable fits encodes decl) := by
  cases decl with
  | struct tys => exact faithful_array h tys
  | flat first rest =>
      cases rest with
      | nil => exact faithful_transparent h first
      | cons next rest => exact faithful_flat hflat h first next rest
  | enum variants hdistinct => exact faithful_enum h hdistinct
  | openEnum variants hdistinct => exact faithful_openEnum h hdistinct

theorem faithful_ty [∀ ty, DecidableEq (F ty)] (hflat : program.Flattens parts)
    (h : ∀ ty, Faithful (parts ty).serialize (parts ty).deserialize (fits ty) (encodes ty))
    (ty : Ty) :
    Faithful (tyImpl parts program.decl ty).serialize (tyImpl parts program.decl ty).deserialize
      (FitsTy parts program.readable fits program.decl ty)
      (EncodesTy parts program.readable fits encodes program.decl ty) := by
  have hmemory : ∀ item, (parts item).size = some 1 → (parts item).Flat 1 := by
    intro item hsize
    rw [hflat.size] at hsize
    exact hflat.flat hsize
  cases ty with
  | scalar kind => exact kind.faithful
  | vec item => exact (h item).vec (hmemory item)
  | deque item => exact (h item).deque
  | array item len => exact ((h item).vec (hmemory item)).array len
  | tuple tys => exact faithful_tuple h tys
  | option item => exact (h item).option
  | result ok err => exact (h ok).result (h err)
  | map key value => exact (h key).map (h value)
  | set item => exact (h item).set
  | named name => exact faithful_decl hflat h (program.decl name)

end Layer

/-! ## Programs -/

namespace Program

/-- At every depth the encoder and the decoder of every type are faithful. -/
theorem faithful (program : Program) (depth : Nat) (ty : Ty) :
    Faithful (program.impl depth ty).serialize (program.impl depth ty).deserialize
      (program.Fits program.readable depth ty) (program.Encodes depth ty) := by
  induction depth generalizing ty with
  | zero =>
      constructor
      · exact fun value => value.elim
      · exact fun value => value.elim
      · exact fun {value} => value.elim
  | succ depth ih => exact faithful_ty (program.flattens depth) ih ty

/-- The bytes of a value are read back as the value, whatever follows them. -/
def RoundTrips (program : Program) (depth : Nat) (ty : Ty) (value : program.Val depth ty) : Prop :=
  ∃ bytes, (program.impl depth ty).serialize value = some bytes ∧
    ∀ rest, (program.impl depth ty).deserialize (bytes ++ rest) = some (value, rest)

/-- A value of any type is read back if and only if it fits. -/
theorem roundTrips_iff_fits (program : Program) (depth : Nat) (ty : Ty)
    (value : program.Val depth ty) :
    program.RoundTrips depth ty value ↔ program.Fits program.readable depth ty value := by
  have hfaithful := program.faithful depth ty
  constructor
  · rintro ⟨bytes, hwrite, hread⟩
    exact hfaithful.returned hwrite (hread [])
  · intro hfits
    obtain ⟨bytes, hwrite, hencodes⟩ := hfaithful.written value hfits
    exact ⟨bytes, hwrite, hfaithful.reads value bytes hencodes⟩

/-- A flat structure, all of whose fields are byte-like, around another one with a string. -/
def messages : Program where
  decl name :=
    if name = "Name" then .flat (.scalar .string) [] else .flat (.scalar .u8) [.named "Name"]
  size _ := none
  isByteLike _ := true
  size_eq name := by
    split
    · simp [Decl.size, Ty.sizes, Ty.size, Scalar.impl, ToxProto.string]
    · simp [Decl.size, Ty.sizes, Ty.size]
  isByteLike_eq name := by
    split
    · simp [Decl.isByteLike, Ty.areByteLike, Ty.isByteLike, Scalar.impl, ToxProto.string]
    · simp [Decl.isByteLike, Ty.areByteLike, Ty.isByteLike, Scalar.impl, ToxProto.unsigned]

/-- Its values are not written at all: `flat_len` of the inner structure panics. -/
theorem not_roundTrips_messages :
    messages.decl "Msg" = .flat (.scalar .u8) [.named "Name"] ∧
      messages.decl "Name" = .flat (.scalar .string) [] ∧
        ¬ messages.RoundTrips 3 (.named "Msg") ((7 : BitVec 8), ("", ()), ()) := by
  refine ⟨rfl, rfl, ?_⟩
  rintro ⟨bytes, hwrite, -⟩
  have hpanic : (messages.impl 3 (.named "Msg")).serialize ((7 : BitVec 8), ("", ()), ()) = none :=
    rfl
  rw [hpanic] at hwrite
  cases hwrite

/-- An encoding of a value is read as the value with all its additional fields, and what
follows it is left. -/
theorem deserialize_extended (program : Program) {depth : Nat} {ty : Ty}
    {value : program.Val depth ty} {bytes : Bytes} (hencodes : program.Encodes depth ty value bytes)
    (rest : Bytes) : (program.impl depth ty).deserialize (bytes ++ rest) = some (value, rest) :=
  (program.faithful depth ty).reads value bytes hencodes rest

/-- Structures of one number, as an older version declares them. -/
def points : Program where
  decl _ := .struct [.scalar .u8]
  size _ := none
  isByteLike _ := false
  size_eq _ := rfl
  isByteLike_eq _ := rfl

/-- An optional structure with two more fields. -/
theorem deserialize_extended_points :
    (points.impl 3 (.option (.named "Point"))).deserialize
        ([0x91, 0x93, 0x05, 0xc0, 0x91, 0x07] ++ [0x2a]) =
      some (some ((5 : BitVec 8), ()), [0x2a]) := by
  have hextras : ∀ extra ∈ ([[0xc0], [0x91, 0x07]] : List Bytes), IsValue extra := by
    intro extra hmem
    have hskip : ∀ data ∈ ([[0xc0], [0x91, 0x07]] : List Bytes), skipValues data 1 = some [] := by
      decide
    exact skips_iff.mpr (hskip extra hmem)
  have hfields : EncodesFields (points.Encodes 1) [.scalar .u8] ((5 : BitVec 8), ()) [0x05] :=
    ⟨[0x05], [], ⟨rfl, trivial⟩, rfl, rfl⟩
  have hpoint : EncodesArray (points.Encodes 1) [.scalar .u8] ((5 : BitVec 8), ())
      [0x93, 0x05, 0xc0, 0x91, 0x07] := .intro hfields hextras (by decide)
  have hoption : points.Encodes 3 (.option (.named "Point")) (some ((5 : BitVec 8), ()))
      [0x91, 0x93, 0x05, 0xc0, 0x91, 0x07] := ⟨_, hpoint, rfl⟩
  exact points.deserialize_extended hoption [0x2a]

end Program

end MerkleTox.Proto
