import MerkleTox.Proto.Derive

/-! # Bounds on the length of encodings

How many bytes a value takes at most, for the primitive types and for what the derive macros
put together from them.
-/

namespace MerkleTox.Proto

variable {len width bound : Nat} {value idx : UInt8}
variable {α β : Type}

/-- The value is written, in at most so many bytes. -/
def ToxProto.Within (codec : ToxProto α) (value : α) (bound : Nat) : Prop :=
  ∃ bytes, codec.serialize value = some bytes ∧ bytes.length ≤ bound

/-- The fields are written, in at most so many bytes. -/
def Fields.Within (fields : Fields α) (value : α) (bound : Nat) : Prop :=
  ∃ bytes, fields.serialize value = some bytes ∧ bytes.length ≤ bound

/-- The variant is written, in at most so many bytes. -/
def Variants.Within (variants : Variants α) (value : α) (bound : Nat) : Prop :=
  ∃ bytes, variants.serialize value = some bytes ∧ bytes.length ≤ bound

/-! ## Headers and numbers -/

theorem length_writeArrayLen_of_lt (hlen : len < 16) :
    (writeArrayLen len).length = 1 := by
  rw [writeArrayLen, if_pos hlen]
  rfl

theorem length_writeArrayLen_le (hlen : len < 65536) :
    (writeArrayLen len).length ≤ 3 := by
  unfold writeArrayLen
  split_ifs
  · simp
  · rw [List.length_cons, length_toBe]

theorem length_writeU8_of_lt (hvalue : value.toNat < 128) :
    (writeU8 value).length = 1 := by
  rw [writeU8, if_pos hvalue]
  rfl

theorem length_writeBin_le {data : Bytes} (hlen : data.length < 65536) :
    (writeBin data).length ≤ 3 + data.length := by
  have hmod : data.length % 2 ^ 32 = data.length := Nat.mod_eq_of_lt (by omega)
  unfold writeBin
  rw [hmod]
  dsimp only
  split_ifs
  · simp only [List.length_append, List.length_cons, length_toBe]
    omega
  · simp only [List.length_append, List.length_cons, length_toBe]
    omega

/-- A number below `256 ^ width` takes its marker and at most as many bytes. -/
theorem length_writeUint_le {value : Nat} (hwidth : width ∈ [1, 2, 4, 8])
    (hvalue : value < 256 ^ width) : (writeUint value).length ≤ width + 1 := by
  have hcases : width = 1 ∨ width = 2 ∨ width = 4 ∨ width = 8 := by simpa using hwidth
  unfold writeUint
  split_ifs
  all_goals
    simp only [List.length_cons, List.length_nil, length_toBe]
    rcases hcases with rfl | rfl | rfl | rfl <;> omega

theorem length_writeSint_le (value : Int) (hvalue : value < 2 ^ 63) :
    (writeSint value).length ≤ 9 := by
  unfold writeSint
  split_ifs
  next =>
    have hnat : value.toNat < 256 ^ 8 := by omega
    exact length_writeUint_le (by simp) hnat
  all_goals
    simp only [List.length_cons, length_toBe]
    omega

namespace ToxProto

theorem within_unsigned (hwidth : width ∈ [1, 2, 4, 8]) (isByteLike : Bool)
    (value : BitVec (8 * width)) : (unsigned width isByteLike).Within value (width + 1) := by
  have hvalue : value.toNat < 256 ^ width := by
    have hlt := value.isLt
    rwa [Nat.pow_mul] at hlt
  exact ⟨_, rfl, length_writeUint_le hwidth hvalue⟩

theorem within_signed (value : BitVec (8 * 8)) : (signed 8).Within value 9 :=
  ⟨_, rfl, length_writeSint_le _ value.toInt_lt⟩

end ToxProto

/-! ## Fields, structures and sequences -/

theorem Fields.within_nil : Fields.nil.Within () 0 := ⟨[], rfl, Nat.le_refl 0⟩

theorem Fields.within_cons {field : ToxProto α} {rest : Fields β} {value : α} {values : β}
    {first others : Nat} (hfield : field.Within value first)
    (hrest : rest.Within values others) :
    (Fields.cons field rest).Within (value, values) (first + others) := by
  obtain ⟨bytes, hbytes, hlength⟩ := hfield
  obtain ⟨more, hmore, hlength'⟩ := hrest
  refine ⟨bytes ++ more, ?_, ?_⟩
  · rw [Fields.serialize, hbytes, hmore]
    rfl
  · rw [List.length_append]
    exact Nat.add_le_add hlength hlength'

namespace ToxProto

/-- A flat structure with one field is written as the field. -/
theorem within_flat {field : ToxProto α} {value : α} (h : field.Within value bound) :
    (flat field .nil).Within (value, ()) bound := by
  have hfields := Fields.within_cons h Fields.within_nil
  exact hfields

theorem within_struct {fields : Fields α} {value : α} (h : fields.Within value bound)
    (hcount : fields.count < 16) :
    (struct fields).Within value (1 + bound) := by
  obtain ⟨bytes, hbytes, hlength⟩ := h
  refine ⟨writeArrayLen fields.count ++ bytes, ?_, ?_⟩
  · simp only [struct, hbytes, Option.map_some]
  · rw [List.length_append, length_writeArrayLen_of_lt hcount]
    exact Nat.add_le_add_left hlength 1

theorem writeEach_within {write : α → Option Bytes} {values : List α}
    (h : ∀ value ∈ values, ∃ bytes, write value = some bytes ∧ bytes.length ≤ bound) :
    ∃ bytes, writeEach write values = some bytes ∧ bytes.length ≤ bound * values.length := by
  induction values with
  | nil => exact ⟨[], rfl, Nat.zero_le _⟩
  | cons value values ih =>
      obtain ⟨first, hfirst, hlength⟩ := h value List.mem_cons_self
      obtain ⟨others, hothers, hlength'⟩ := ih fun other hmem =>
        h other (List.mem_cons_of_mem _ hmem)
      refine ⟨first ++ others, ?_, ?_⟩
      · rw [writeEach, hfirst, hothers]
        rfl
      · rw [List.length_append, List.length_cons, Nat.mul_succ]
        omega

theorem within_deque {item : ToxProto α} {values : List α}
    (h : ∀ value ∈ values, item.Within value bound) (hlen : values.length < 65536) :
    (deque item).Within values (3 + bound * values.length) := by
  obtain ⟨bytes, hbytes, hlength⟩ := writeEach_within h
  refine ⟨writeArrayLen (values.length % 2 ^ 32) ++ bytes, ?_, ?_⟩
  · simp only [deque, hbytes, Option.map_some]
  · rw [List.length_append, Nat.mod_eq_of_lt (by omega)]
    exact Nat.add_le_add (length_writeArrayLen_le hlen) hlength

/-- A vector of bytes is written as a byte string. -/
theorem within_bytes {values : List (BitVec (8 * 1))} (hlen : values.length < 65536) :
    (vec (unsigned 1 true)).Within values (3 + values.length) := by
  have hflat : ∀ values : List (BitVec (8 * 1)), ∃ bytes,
      writeEach (unsigned 1 true).serializeFlat values = some bytes ∧
        bytes.length = values.length := by
    intro values
    induction values with
    | nil => exact ⟨[], rfl, rfl⟩
    | cons value values ih =>
        obtain ⟨bytes, hbytes, hlength⟩ := ih
        refine ⟨toBe 1 value.toNat ++ bytes, ?_, ?_⟩
        · rw [writeEach, hbytes]
          rfl
        · rw [List.length_append, length_toBe, List.length_cons, hlength, Nat.add_comm]
  obtain ⟨bytes, hbytes, hlength⟩ := hflat values
  refine ⟨writeBin bytes, ?_, ?_⟩
  · have hserialize : (vec (unsigned 1 true)).serialize values =
        (writeEach (unsigned 1 true).serializeFlat values).map writeBin := rfl
    rw [hserialize, hbytes, Option.map_some]
  · rw [← hlength] at hlen ⊢
    exact length_writeBin_le hlen

end ToxProto

/-! ## Enumerations -/

namespace Variants

/-- The header of a variant with fields takes two bytes. -/
theorem length_header (hidx : idx.toNat < 128) :
    (writeArrayLen 2 ++ writeU8 idx).length = 2 := by
  rw [List.length_append, length_writeU8_of_lt hidx]
  rfl

theorem within_payload {fields : Fields α} {rest : Variants β} {value : α} (hidx : idx.toNat < 128)
    (h : fields.Within value bound) (hcount : fields.count < 16) :
    (payload idx fields rest).Within (.inl value) (3 + bound) := by
  obtain ⟨bytes, hbytes, hlength⟩ := h
  have hheader := length_header hidx
  by_cases hone : fields.count = 1
  · refine ⟨writeArrayLen 2 ++ writeU8 idx ++ bytes, ?_, ?_⟩
    · rw [serialize, writePayload, if_pos hone, hbytes, Option.map_some]
    · rw [List.length_append, hheader]
      omega
  · refine ⟨writeArrayLen 2 ++ writeU8 idx ++ (writeArrayLen fields.count ++ bytes), ?_, ?_⟩
    · rw [serialize, writePayload, if_neg hone, hbytes, Option.map_some, Option.map_some]
    · rw [List.length_append, hheader, List.length_append, length_writeArrayLen_of_lt hcount]
      omega

theorem Within.mono {variants : Variants α} {value : α} {more : Nat}
    (h : variants.Within value bound) (hle : bound ≤ more) : variants.Within value more := by
  obtain ⟨bytes, hbytes, hlength⟩ := h
  exact ⟨bytes, hbytes, hlength.trans hle⟩

theorem within_payload_later {fields : Fields α} {rest : Variants β} {value : β}
    (h : rest.Within value bound) :
    (payload idx fields rest).Within (.inr value) bound := h

end Variants

end MerkleTox.Proto
