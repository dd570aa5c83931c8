import MerkleTox.Proto.Containers

/-! # Flat forms

The flat form of a value, for all types of a program: a type with a size has a flat form of
this size that is read back, and the types that may end a byte string are read back from its
end. The implementations for a depth follow from those for the depth below.
-/

namespace MerkleTox.Proto

open Library

theorem Scalar.flat {kind : Scalar} {size : Nat} (hsize : kind.impl.size = some size) :
    kind.impl.Flat size := by
  cases kind with
  | u128 | i128 =>
      cases hsize
      exact ToxProto.flat_int128
  | char =>
      cases hsize
      exact ToxProto.flat_char
  | bool =>
      cases hsize
      exact ToxProto.flat_bool
  | string => cases hsize
  | _ =>
      cases hsize
      exact ToxProto.flat_be (fun _ => rfl) (fun _ => rfl) fun _ => rfl

namespace Program

/-- The types whose flat form is read back as the last one of a byte string. -/
def Trails (program : Program) : Ty → Prop
  | .scalar .string => True
  | .vec item => ∃ size, item.size program.size = some size ∧ 0 < size
  | ty => (ty.size program.size).isSome

theorem trails_of_size (program : Program) {ty : Ty} {size : Nat}
    (hsize : ty.size program.size = some size) : program.Trails ty := by
  have hsome : (ty.size program.size).isSome := Option.isSome_iff_exists.mpr ⟨size, hsize⟩
  cases ty with
  | scalar kind =>
      cases kind with
      | string => trivial
      | _ => exact hsome
  | vec item => cases hsize
  | _ => exact hsome

/-- The flat forms of the implementations for all types. -/
structure Flattens (program : Program) {F : Ty → Type} (parts : ∀ ty, ToxProto (F ty)) :
    Prop where
  size : ∀ ty, (parts ty).size = ty.size program.size
  isByteLike : ∀ ty, (parts ty).isByteLike = ty.isByteLike program.isByteLike
  flat : ∀ {ty size}, ty.size program.size = some size → (parts ty).Flat size
  trails : ∀ {ty}, program.Trails ty → ∀ value, (parts ty).Trails value
  written : ∀ {ty value total data}, (parts ty).flatLen value = some total →
    (parts ty).serializeFlat value = some data → data.length = total
  read : ∀ {ty value total input rest}, (parts ty).flatLen value = some total →
    (parts ty).deserializeFlat input = some (value, rest) →
      total ≤ input.length ∧ program.Trails ty

namespace Flattens

variable {program : Program} {F : Ty → Type} {parts : ∀ ty, ToxProto (F ty)}

/-! ## Fields -/

theorem size_eachImpl (h : program.Flattens parts) (tys : List Ty) :
    (eachImpl parts tys).size = Ty.sizes program.size tys := by
  induction tys with
  | nil => simp [eachImpl, Fields.size, Ty.sizes]
  | cons ty tys ih =>
      change (do
        let first ← (parts ty).size
        let others ← (eachImpl parts tys).size
        some (first + others)) = _
      rw [Ty.sizes, h.size, ih]

theorem isByteLike_eachImpl (h : program.Flattens parts) (tys : List Ty) :
    (eachImpl parts tys).isByteLike = Ty.areByteLike program.isByteLike tys := by
  induction tys with
  | nil => simp [eachImpl, Fields.isByteLike, Ty.areByteLike]
  | cons ty tys ih =>
      change ((parts ty).isByteLike && (eachImpl parts tys).isByteLike) = _
      rw [Ty.areByteLike, h.isByteLike, ih]

theorem count_eachImpl (tys : List Ty) : (eachImpl parts tys).count = tys.length := by
  induction tys with
  | nil => rfl
  | cons ty tys ih => exact congrArg (· + 1) ih

variable {tys : List Ty} {size : Nat} {total : Nat}
variable {data : Bytes} {ty : Ty} {value : Each F (ty :: tys)} {input rest : Bytes} {item : Ty}
variable {values : List (F item)}

theorem serializeFlat_cons :
    (eachImpl parts (ty :: tys)).serializeFlat value = some data ↔
      ∃ first others, (parts ty).serializeFlat value.1 = some first ∧
        (eachImpl parts tys).serializeFlat value.2 = some others ∧ data = first ++ others := by
  constructor
  · intro hdata
    obtain ⟨first, hfirst, hdata⟩ := Option.bind_eq_some_iff.mp hdata
    obtain ⟨others, hothers, heq⟩ := Option.bind_eq_some_iff.mp hdata
    cases heq
    exact ⟨first, others, hfirst, hothers, rfl⟩
  · rintro ⟨first, others, hfirst, hothers, rfl⟩
    refine Option.bind_eq_some_iff.mpr ⟨first, hfirst, ?_⟩
    exact Option.bind_eq_some_iff.mpr ⟨others, hothers, rfl⟩

theorem deserializeFlat_cons :
    (eachImpl parts (ty :: tys)).deserializeFlat input = some (value, rest) ↔
      ∃ middle, (parts ty).deserializeFlat input = some (value.1, middle) ∧
        (eachImpl parts tys).deserializeFlat middle = some (value.2, rest) := by
  constructor
  · intro hread
    obtain ⟨⟨first, middle⟩, hfirst, hread⟩ := Option.bind_eq_some_iff.mp hread
    obtain ⟨⟨others, last⟩, hothers, heq⟩ := Option.bind_eq_some_iff.mp hread
    cases heq
    exact ⟨middle, hfirst, hothers⟩
  · rintro ⟨middle, hfirst, hothers⟩
    refine Option.bind_eq_some_iff.mpr ⟨(value.1, middle), hfirst, ?_⟩
    exact Option.bind_eq_some_iff.mpr ⟨(value.2, rest), hothers, rfl⟩

/-- The flat forms of the fields one behind the other. -/
theorem flat_tuple (h : program.Flattens parts) (hsize : Ty.sizes program.size tys = some size) :
    (ToxProto.tuple (eachImpl parts tys)).Flat size := by
  induction tys generalizing size with
  | nil =>
      rw [Ty.sizes, Option.some.injEq] at hsize
      subst hsize
      exact {
        len := fun _ => rfl
        back := fun _ => ⟨[], rfl, rfl, fun _ => rfl⟩
        takes := by
          intro input value rest hread
          cases hread
          exact (Nat.zero_add _).le }
  | cons ty tys ih =>
      have hfields := h.size_eachImpl (ty :: tys)
      rw [hsize] at hfields
      rw [Ty.sizes] at hsize
      obtain ⟨first, hfirst, hsize⟩ := Option.bind_eq_some_iff.mp hsize
      obtain ⟨others, hothers, heq⟩ := Option.bind_eq_some_iff.mp hsize
      cases heq
      have hhead := h.flat hfirst
      have htail := ih hothers
      constructor
      · exact fun _ => hfields
      · intro value
        obtain ⟨data, hdata, hlen, hback⟩ := hhead.back value.1
        obtain ⟨more, hmore, hlength, hread⟩ := htail.back value.2
        refine ⟨data ++ more, serializeFlat_cons.mpr ⟨data, more, hdata, hmore, rfl⟩, ?_, ?_⟩
        · rw [List.length_append, hlen, hlength]
        · intro rest
          rw [List.append_assoc]
          exact deserializeFlat_cons.mpr ⟨more ++ rest, hback _, hread rest⟩
      · intro input value rest hread
        obtain ⟨middle, hfirst, hothers⟩ := deserializeFlat_cons.mp hread
        have hleft := hhead.takes hfirst
        have hright := htail.takes hothers
        omega

/-- `flat_len` of the last field, and the sizes of those before it. -/
theorem flatLen_cons {ty next : Ty} {value : Each F (ty :: next :: tys)}
    (hlen : (eachImpl parts (ty :: next :: tys)).flatLen value = some total) :
    ∃ first others, (parts ty).size = some first ∧
      (eachImpl parts (next :: tys)).flatLen value.2 = some others ∧ total = first + others := by
  obtain ⟨first, hfirst, hlen⟩ := Option.bind_eq_some_iff.mp hlen
  obtain ⟨others, hothers, heq⟩ := Option.bind_eq_some_iff.mp hlen
  cases heq
  exact ⟨first, others, hfirst, hothers, rfl⟩

theorem written_fields (h : program.Flattens parts) {value : Each F tys}
    (hlen : (eachImpl parts tys).flatLen value = some total)
    (hdata : (eachImpl parts tys).serializeFlat value = some data) : data.length = total := by
  induction tys generalizing total data with
  | nil =>
      cases hlen
      cases hdata
      rfl
  | cons ty tys ih =>
      obtain ⟨first, others, hfirst, hothers, rfl⟩ := serializeFlat_cons.mp hdata
      cases tys with
      | nil =>
          cases hothers
          rw [List.append_nil]
          exact h.written hlen hfirst
      | cons next tys =>
          obtain ⟨size, rest, hsize, hrest, rfl⟩ := flatLen_cons hlen
          rw [h.size] at hsize
          obtain ⟨again, hagain, hlength, -⟩ := (h.flat hsize).back value.1
          rw [hfirst, Option.some.injEq] at hagain
          rw [List.length_append, ih hrest hothers, hagain, hlength]

/-- Fields that are read back take their length, and end with a field that may be the last. -/
theorem read_fields (h : program.Flattens parts) {value : Each F tys}
    (hlen : (eachImpl parts tys).flatLen value = some total)
    (hread : (eachImpl parts tys).deserializeFlat input = some (value, rest)) :
    total ≤ input.length ∧ ∀ hne, program.Trails (tys.getLast hne) := by
  induction tys generalizing total input with
  | nil =>
      cases hlen
      exact ⟨Nat.zero_le _, fun hne => absurd rfl hne⟩
  | cons ty tys ih =>
      obtain ⟨middle, hfirst, hothers⟩ := deserializeFlat_cons.mp hread
      cases tys with
      | nil =>
          obtain ⟨hle, hlast⟩ := h.read hlen hfirst
          exact ⟨hle, fun _ => hlast⟩
      | cons next tys =>
          obtain ⟨size, others, hsize, hrest, rfl⟩ := flatLen_cons hlen
          rw [h.size] at hsize
          have htakes := (h.flat hsize).takes hfirst
          obtain ⟨hle, hlast⟩ := ih hrest hothers
          refine ⟨by omega, fun hne => ?_⟩
          rw [List.getLast_cons (List.cons_ne_nil next tys)]
          exact hlast _

/-- The byte string of fields of which the last may end it. -/
theorem trails_fields (h : program.Flattens parts) (hne : tys ≠ [])
    (hlast : program.Trails (tys.getLast hne)) {value : Each F tys}
    (hlen : (eachImpl parts tys).flatLen value = some total) :
    ∃ data rest, (eachImpl parts tys).serializeFlat value = some data ∧
      (eachImpl parts tys).deserializeFlat data = some (value, rest) := by
  induction tys generalizing total with
  | nil => exact absurd rfl hne
  | cons ty tys ih =>
      cases tys with
      | nil =>
          obtain ⟨data, rest, hdata, -, hread⟩ := h.trails hlast value.1
          refine ⟨data, rest, serializeFlat_cons.mpr ⟨data, [], hdata, rfl, ?_⟩, ?_⟩
          · rw [List.append_nil]
          · exact deserializeFlat_cons.mpr ⟨rest, hread, rfl⟩
      | cons next tys =>
          obtain ⟨size, others, hsize, hrest, rfl⟩ := flatLen_cons hlen
          rw [h.size] at hsize
          rw [List.getLast_cons (List.cons_ne_nil next tys)] at hlast
          obtain ⟨first, hfirst, -, hback⟩ := (h.flat hsize).back value.1
          obtain ⟨more, rest, hmore, hread⟩ := ih (List.cons_ne_nil next tys) hlast hrest
          refine ⟨first ++ more, rest, serializeFlat_cons.mpr ⟨first, more, hfirst, hmore, rfl⟩, ?_⟩
          exact deserializeFlat_cons.mpr ⟨more, hback more, hread⟩

/-! ## The next depth -/

theorem flat_array (h : program.Flattens parts) (len : Nat)
    (hsize : item.size program.size = some size) :
    ((parts item).array len).Flat (size * len) where
  len _ := by
    change (parts item).size.map (· * len) = some (size * len)
    rw [h.size, hsize]
    rfl
  back := by
    rintro ⟨values, rfl⟩
    obtain ⟨data, hdata, hlen, hread⟩ := (h.flat hsize).items values
    refine ⟨data, hdata, hlen, fun rest => ?_⟩
    have htry : ToxProto.tryInto values.length values = some ⟨values, rfl⟩ :=
      ToxProto.tryInto_eq_some.mpr rfl
    simp [ToxProto.array, hread, htry]
  takes := by
    intro input value rest hread
    obtain ⟨⟨values, middle⟩, hvalues, hread⟩ := Option.bind_eq_some_iff.mp hread
    obtain ⟨whole, -, heq⟩ := Option.bind_eq_some_iff.mp hread
    cases heq
    exact (h.flat hsize).takes_items hvalues

/-- The implementation of a type with a size has a flat form of this size. -/
theorem flat_tyImpl (h : program.Flattens parts) [∀ ty, DecidableEq (F ty)]
    (hsize : ty.size program.size = some size) : (tyImpl parts program.decl ty).Flat size := by
  cases ty with
  | scalar kind =>
      rw [Ty.size] at hsize
      exact Scalar.flat hsize
  | array item len =>
      rw [Ty.size] at hsize
      obtain ⟨each, heach, rfl⟩ := Option.map_eq_some_iff.mp hsize
      exact h.flat_array len heach
  | tuple items =>
      rw [Ty.size] at hsize
      exact h.flat_tuple hsize
  | named name =>
      rw [Ty.size, program.size_eq] at hsize
      change (declImpl parts (program.decl name)).Flat size
      generalize program.decl name = decl at hsize
      cases decl with
      | flat first rest =>
          have hflat := h.flat_tuple hsize
          exact ⟨hflat.len, hflat.back, hflat.takes⟩
      | _ => cases hsize
  | _ => simp [Ty.size] at hsize

theorem size_tyImpl (h : program.Flattens parts) [∀ ty, DecidableEq (F ty)] (ty : Ty) :
    (tyImpl parts program.decl ty).size = ty.size program.size := by
  cases ty with
  | array item len =>
      rw [Ty.size, ← h.size]
      rfl
  | tuple items =>
      rw [Ty.size, ← h.size_eachImpl]
      rfl
  | named name =>
      rw [Ty.size, program.size_eq]
      change (declImpl parts (program.decl name)).size = _
      cases program.decl name with
      | flat first rest => exact h.size_eachImpl (first :: rest)
      | _ => rfl
  | _ =>
      simp only [Ty.size]
      rfl

theorem isByteLike_tyImpl (h : program.Flattens parts) [∀ ty, DecidableEq (F ty)] (ty : Ty) :
    (tyImpl parts program.decl ty).isByteLike = ty.isByteLike program.isByteLike := by
  cases ty with
  | vec item =>
      rw [Ty.isByteLike, ← h.isByteLike]
      rfl
  | array item len =>
      rw [Ty.isByteLike, ← h.isByteLike]
      rfl
  | tuple items =>
      rw [Ty.isByteLike, ← h.isByteLike_eachImpl]
      rfl
  | named name =>
      rw [Ty.isByteLike, program.isByteLike_eq]
      change (declImpl parts (program.decl name)).isByteLike = _
      cases program.decl name with
      | flat first rest => exact h.isByteLike_eachImpl (first :: rest)
      | _ => rfl
  | _ =>
      simp only [Ty.isByteLike]
      rfl

/-- A type with a length for its flat form has a size, or it is a string or a vector. -/
theorem flatLen_tyImpl (h : program.Flattens parts) [∀ ty, DecidableEq (F ty)]
    {value : TyVal F program.decl ty}
    (hlen : (tyImpl parts program.decl ty).flatLen value = some total) :
    (∃ size, ty.size program.size = some size) ∨ ty = .scalar .string ∨ ∃ item, ty = .vec item := by
  cases ty with
  | scalar kind =>
      cases kind with
      | string => exact .inr (.inl rfl)
      | _ => exact .inl ⟨_, by rw [Ty.size]; rfl⟩
  | vec item => exact .inr (.inr ⟨item, rfl⟩)
  | array item len =>
      rw [Ty.size, ← h.size]
      exact .inl ⟨total, hlen⟩
  | tuple items =>
      rw [Ty.size, ← h.size_eachImpl]
      exact .inl ⟨total, hlen⟩
  | named name =>
      left
      rw [Ty.size, program.size_eq]
      change (declImpl parts (program.decl name)).flatLen value = some total at hlen
      change DeclVal F (program.decl name) at value
      generalize program.decl name = decl at value hlen
      cases decl with
      | flat first rest => exact ⟨total, (h.size_eachImpl (first :: rest)).symm.trans hlen⟩
      | _ => cases hlen
  | _ => cases hlen

/-- The reader of a vector in flat form, for items of some size. -/
theorem deserializeFlat_vec (h : program.Flattens parts)
    (hsize : item.size program.size = some size) (hpos : 0 < size) (hne : size ≠ 1)
    (input : Bytes) :
    (parts item).vec.deserializeFlat input =
      readWhile (parts item).deserializeFlat (input.length + 1) input := by
  obtain ⟨fewer, rfl⟩ : ∃ fewer, size = fewer + 2 := ⟨size - 2, by omega⟩
  rw [← h.size] at hsize
  simp [ToxProto.vec, hsize]

theorem trails_vec (h : program.Flattens parts) (hsize : item.size program.size = some size)
    (hpos : 0 < size) (values : List (F item)) : (parts item).vec.Trails values := by
  have hitem : (parts item).size = some size := (h.size item).trans hsize
  have hlen : (parts item).vec.flatLen values = some (values.length * size) := by
    simp [ToxProto.vec, hitem]
  by_cases hone : size = 1
  · subst hone
    obtain ⟨data, hdata, hlength, hmemory⟩ := (h.flat hsize).memory values
    refine ⟨data, [], ?_, ?_, ?_⟩
    · simp [ToxProto.vec, hitem, hdata]
    · rw [hlen, hlength, Nat.mul_one]
    · simp [ToxProto.vec, hitem, hmemory]
  · obtain ⟨data, hdata, hlength, hread⟩ := (h.flat hsize).readWhile hpos values
    refine ⟨data, [], ?_, ?_, ?_⟩
    · simp [ToxProto.vec, hitem, hdata]
    · rw [hlen, hlength]
    · rw [h.deserializeFlat_vec hsize hpos hone]
      refine hread _ (Nat.lt_succ_of_le ?_)
      rw [hlength]
      exact Nat.le_mul_of_pos_right _ hpos

theorem written_vec (h : program.Flattens parts)
    (hlen : (parts item).vec.flatLen values = some total)
    (hdata : (parts item).vec.serializeFlat values = some data) : data.length = total := by
  obtain ⟨size, hitem, rfl⟩ := Option.map_eq_some_iff.mp hlen
  have hsize : item.size program.size = some size := (h.size item).symm.trans hitem
  obtain ⟨again, hagain, hlength, -⟩ := (h.flat hsize).items values
  simp only [ToxProto.vec, hitem, Option.isSome_some, if_true, hagain, Option.some.injEq] at hdata
  rw [← hdata, hlength, Nat.mul_comm]

theorem read_vec (h : program.Flattens parts) (hlen : (parts item).vec.flatLen values = some total)
    (hread : (parts item).vec.deserializeFlat input = some (values, rest)) :
    total ≤ input.length ∧ program.Trails (.vec item) := by
  obtain ⟨size, hitem, rfl⟩ := Option.map_eq_some_iff.mp hlen
  have hsize : item.size program.size = some size := (h.size item).symm.trans hitem
  rcases Nat.eq_zero_or_pos size with rfl | hpos
  · simp [ToxProto.vec, hitem] at hread
  refine ⟨?_, size, hsize, hpos⟩
  by_cases hone : size = 1
  · subst hone
    simp only [ToxProto.vec, hitem, if_true] at hread
    obtain ⟨found, hfound, heq⟩ := Option.map_eq_some_iff.mp hread
    cases heq
    rw [length_fromMemory hfound, Nat.mul_one]
  · rw [h.deserializeFlat_vec hsize hpos hone] at hread
    exact (h.flat hsize).length_readWhile hread

/-- The implementations of the next depth have flat forms, too. -/
theorem next (h : program.Flattens parts) [∀ ty, DecidableEq (F ty)] :
    program.Flattens (tyImpl parts program.decl) where
  size := h.size_tyImpl
  isByteLike := h.isByteLike_tyImpl
  flat := h.flat_tyImpl
  -- A sized type leaves nothing over; a string and a list of sized items read to the end.
  trails := by
    have hsized : ∀ {ty}, (Ty.size program.size ty).isSome → ∀ value,
        (tyImpl parts program.decl ty).Trails value := by
      intro ty hsome value
      obtain ⟨size, hsize⟩ := Option.isSome_iff_exists.mp hsome
      exact (h.flat_tyImpl hsize).trails value
    intro ty htrails value
    cases ty with
    | scalar kind =>
        cases kind with
        | string => exact ToxProto.trails_string value
        | _ => exact hsized htrails value
    | vec item =>
        obtain ⟨size, hsize, hpos⟩ := htrails
        exact h.trails_vec hsize hpos value
    | _ => exact hsized htrails value
  written := by
    intro ty value total data hlen hdata
    rcases h.flatLen_tyImpl hlen with ⟨size, hsize⟩ | rfl | ⟨item, rfl⟩
    · obtain ⟨again, hagain, hlength, -⟩ := (h.flat_tyImpl hsize).back value
      rw [hdata, Option.some.injEq] at hagain
      rw [(h.flat_tyImpl hsize).len, Option.some.injEq] at hlen
      rw [hagain, hlength, hlen]
    · cases hlen
      cases hdata
      rfl
    · exact h.written_vec hlen hdata
  read := by
    intro ty value total input rest hlen hread
    rcases h.flatLen_tyImpl hlen with ⟨size, hsize⟩ | rfl | ⟨item, rfl⟩
    · rw [(h.flat_tyImpl hsize).len, Option.some.injEq] at hlen
      have htakes := (h.flat_tyImpl hsize).takes hread
      exact ⟨by omega, program.trails_of_size hsize⟩
    · obtain ⟨text, htext, heq⟩ := Option.bind_eq_some_iff.mp hread
      cases heq
      cases hlen
      rw [utf8_of_fromUTF8? htext]
      exact ⟨le_rfl, trivial⟩
    · exact h.read_vec hlen hread

end Flattens

/-! ## All depths -/

theorem flattens_exhausted (program : Program) : program.Flattens program.exhausted where
  size _ := rfl
  isByteLike _ := rfl
  flat _ := { len := nofun, back := nofun, takes := nofun }
  trails _ := nofun
  written := nofun
  read := nofun

theorem flattens (program : Program) (depth : Nat) : program.Flattens (program.impl depth) := by
  induction depth with
  | zero => exact program.flattens_exhausted
  | succ depth ih => exact ih.next

end Program

end MerkleTox.Proto
