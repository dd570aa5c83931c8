import MerkleTox.Proto.Faithfulness
import MerkleTox.Proto.Streams

/-! # Catch-all variants

What an enumeration with a catch-all variant makes of bytes that it does not know: whether the
bytes of a newer version are captured and written again as they were, and whether a captured
value is read back when it is written again, for any bytes a peer may send.
-/

namespace MerkleTox.Proto

open Library

/-! ## Discriminants -/

variable {value : Nat} {input rest : Bytes}

theorem fixPos_lt {byte : UInt8} (hmarker : Marker.ofByte byte = .fixPos value) : value < 128 := by
  unfold Marker.ofByte at hmarker
  dsimp only at hmarker
  split at hmarker
  next h =>
    cases hmarker
    exact h
  next =>
    exfalso
    repeat' split at hmarker
    all_goals cases hmarker

theorem fromBe_one (hread : readBe 1 input = some (value, rest)) : value < 256 := by
  obtain ⟨⟨data, tail⟩, hdata, heq⟩ := Option.map_eq_some_iff.mp hread
  cases heq
  obtain ⟨byte, rfl⟩ := List.length_eq_one_iff.mp (length_readExact hdata).1
  have hlt := byte.toNat_lt
  simpa [fromBe] using hlt

theorem readMarker_ofByte {marker : Marker} (hread : readMarker input = some (marker, rest)) :
    ∃ byte, marker = Marker.ofByte byte := by
  obtain ⟨byte, rfl⟩ := readMarker_eq hread
  cases hread
  exact ⟨byte, rfl⟩

theorem readU8_lt (hread : readU8 input = some (value, rest)) : value < 256 := by
  obtain ⟨⟨marker, tail⟩, hmarker, hread⟩ := Option.bind_eq_some_iff.mp hread
  obtain ⟨byte, hbyte⟩ := readMarker_ofByte hmarker
  cases marker with
  | fixPos found =>
      cases hread
      have hlt := fixPos_lt hbyte.symm
      omega
  | uint width =>
      obtain ⟨⟨found, last⟩, -, hread⟩ := Option.bind_eq_some_iff.mp hread
      dsimp only at hread
      split at hread
      next hlt =>
        cases hread
        exact hlt
      next => cases hread
  | sint width =>
      obtain ⟨⟨found, last⟩, -, hread⟩ := Option.bind_eq_some_iff.mp hread
      dsimp only at hread
      split at hread
      next hlt =>
        cases hread
        exact hlt.1
      next => cases hread
  | _ => cases hread

/-- A header has a discriminant of eight bits. -/
theorem readEnumHeader_lt {input tail : Bytes} {idx len : Nat}
    (hread : readEnumHeader input = some ((idx, len), tail)) : idx < 256 := by
  obtain ⟨⟨marker, rest⟩, hmarker, hread⟩ := Option.bind_eq_some_iff.mp hread
  obtain ⟨byte, hbyte⟩ := readMarker_ofByte hmarker
  dsimp only at hread
  split at hread
  next =>
    cases hread
    have hlt := fixPos_lt hbyte.symm
    omega
  next =>
    obtain ⟨⟨found, last⟩, hfound, heq⟩ := Option.bind_eq_some_iff.mp hread
    cases heq
    exact fromBe_one hfound
  next =>
    obtain ⟨⟨found, last⟩, hfound, heq⟩ := Option.bind_eq_some_iff.mp hread
    cases heq
    exact readU8_lt hfound
  next =>
    obtain ⟨⟨count, middle⟩, -, hread⟩ := Option.bind_eq_some_iff.mp hread
    obtain ⟨⟨found, last⟩, hfound, heq⟩ := Option.bind_eq_some_iff.mp hread
    cases heq
    exact readU8_lt hfound
  next => cases hread

/-! ## Encoding again -/

namespace ToxProto

variable {α : Type} {variants : Variants α}

/-- What has been captured under a header that was read. -/
theorem deserialize_unknown {input rest : Bytes} {unknown : Unknown}
    (hread : (openEnum variants).deserialize input = some (.inr unknown, rest)) :
    ∃ idx len tail, readEnumHeader input = some ((idx, len), tail) ∧ idx < 256 ∧
      variants.knows idx = false ∧ unknown.discriminant = BitVec.ofNat 32 idx ∧
        Skips unknown.data (len - 1) [] := by
  obtain ⟨⟨⟨idx, len⟩, tail⟩, hheader, hread⟩ := Option.bind_eq_some_iff.mp hread
  dsimp only at hread
  cases hknown : variants.knows idx with
  | true =>
      rw [hknown, if_pos rfl] at hread
      obtain ⟨⟨found, last⟩, -, heq⟩ := Option.map_eq_some_iff.mp hread
      cases heq
  | false =>
      rw [hknown, if_neg Bool.false_ne_true] at hread
      obtain ⟨⟨data, last⟩, hcapture, heq⟩ := Option.map_eq_some_iff.mp hread
      cases heq
      exact ⟨idx, len, tail, hheader, readEnumHeader_lt hheader, hknown, rfl,
        (captureValues_eq_some hcapture).2⟩

/-- A captured value is read back from its own encoding if and only if it came in an array of
at most two elements, or without one. -/
theorem openEnum_reencodes_iff {input rest : Bytes} {unknown : Unknown}
    (hread : (openEnum variants).deserialize input = some (.inr unknown, rest)) :
    (∃ bytes, (openEnum variants).serialize (.inr unknown) = some bytes ∧ ∀ more,
        (openEnum variants).deserialize (bytes ++ more) = some (.inr unknown, more)) ↔
      ∃ idx len tail, readEnumHeader input = some ((idx, len), tail) ∧ len ≤ 2 := by
  obtain ⟨idx, len, tail, hheader, hidx, hknown, hdiscriminant, hskips⟩ :=
    deserialize_unknown hread
  constructor
  · rintro ⟨bytes, ⟨⟩, hback⟩
    obtain ⟨-, hdata⟩ := returned_unknown (hback [])
    refine ⟨idx, len, tail, hheader, ?_⟩
    by_contra hlong
    obtain ⟨count, rfl⟩ : ∃ count, len = count + 3 := ⟨len - 3, by omega⟩
    have hmany : Skips unknown.data (1 + (count + 1)) [] := by
      rw [Nat.add_comm]
      exact hskips
    rcases hdata with hnil | hone
    · have hlen := hmany.length_le
      rw [hnil] at hlen
      simp at hlen
    · exact absurd (hone.count_eq hmany) (Nat.succ_ne_zero count)
  · rintro ⟨again, short, same, hagain, hshort⟩
    rw [hheader, Option.some.injEq, Prod.mk.injEq, Prod.mk.injEq] at hagain
    obtain ⟨⟨rfl, rfl⟩, rfl⟩ := hagain
    refine ⟨_, rfl, reads_unknown ⟨⟨?_, ?_⟩, ?_⟩⟩
    · rw [hdiscriminant, BitVec.toNat_ofNat]
      omega
    · rw [hdiscriminant, BitVec.toNat_ofNat, Nat.mod_eq_of_lt (by omega)]
      exact hknown
    · have hfew : len - 1 = 0 ∨ len - 1 = 1 := by omega
      rcases hfew with hzero | hone
      · left
        rw [hzero, skips_iff, skipValues_zero] at hskips
        exact Option.some.inj hskips
      · right
        rw [hone] at hskips
        exact hskips

theorem openEnum_reencodes_one :
    (∃ bytes, (openEnum .nil).serialize (.inr ⟨7, [0xc0]⟩) = some bytes ∧ ∀ more,
        (openEnum .nil).deserialize (bytes ++ more) = some (.inr ⟨7, [0xc0]⟩, more)) ↔
      ∃ idx len tail, readEnumHeader [0x92, 0x07, 0xc0] = some ((idx, len), tail) ∧ len ≤ 2 := by
  have hread : (openEnum .nil).deserialize [0x92, 0x07, 0xc0] = some (.inr ⟨7, [0xc0]⟩, []) := by
    decide
  exact openEnum_reencodes_iff hread

/-- Two captured values are written behind a header for one. -/
theorem not_openEnum_reencodes_two :
    (openEnum .nil).deserialize [0x93, 0x07, 0xc0, 0xc0] = some (.inr ⟨7, [0xc0, 0xc0]⟩, []) ∧
      ¬ ∃ bytes, (openEnum .nil).serialize (.inr ⟨7, [0xc0, 0xc0]⟩) = some bytes ∧ ∀ more,
        (openEnum .nil).deserialize (bytes ++ more) = some (.inr ⟨7, [0xc0, 0xc0]⟩, more) := by
  refine ⟨by decide, ?_⟩
  rintro ⟨bytes, ⟨⟩, hback⟩
  have hshort : (openEnum .nil).deserialize [0x92, 0x07, 0xc0, 0xc0] =
      some (.inr ⟨7, [0xc0]⟩, [0xc0]) := by decide
  have hwhole := hback []
  rw [List.append_nil] at hwhole
  cases hshort.symm.trans hwhole

end ToxProto

/-! ## Newer versions -/

section Newer

variable {α : Type} {older : Variants α}

/-- The older version takes the bytes for a catch-all, leaves what follows them, and writes
the same bytes for it. -/
def Relays (older : Variants α) (bytes : Bytes) : Prop :=
  ∃ unknown,
    (∀ rest, (ToxProto.openEnum older).deserialize (bytes ++ rest) = some (.inr unknown, rest)) ∧
      (ToxProto.openEnum older).serialize (.inr unknown) = some bytes

theorem toNat_ofNat_idx (idx : UInt8) : (BitVec.ofNat 32 idx.toNat).toNat = idx.toNat := by
  have hlt := idx.toNat_lt
  rw [BitVec.toNat_ofNat, Nat.mod_eq_of_lt (by omega)]

theorem relays_unit {idx : UInt8} (hnew : older.knows idx.toNat = false) :
    Relays older (writeU8 idx) := by
  have hbytes : ToxProto.writeUnknown ⟨BitVec.ofNat 32 idx.toNat, []⟩ = writeU8 idx := by
    simp [ToxProto.writeUnknown]
  have hkeeps : older.Keeps ⟨BitVec.ofNat 32 idx.toNat, []⟩ := by
    refine ⟨?_, .inl rfl⟩
    simp only [toNat_ofNat_idx]
    exact ⟨idx.toNat_lt, hnew⟩
  refine ⟨⟨BitVec.ofNat 32 idx.toNat, []⟩, fun rest => ?_, congrArg some hbytes⟩
  rw [← hbytes]
  exact reads_unknown hkeeps rest

/-- A payload is relayed if and only if it is one value for `skip_value`. -/
theorem relays_payload_iff {idx : UInt8} (hnew : older.knows idx.toNat = false) (payload : Bytes) :
    Relays older (writeArrayLen 2 ++ writeU8 idx ++ payload) ↔ IsValue payload := by
  constructor
  · rintro ⟨unknown, hread, -⟩
    have hcapture := hread []
    rw [List.append_assoc, deserialize_openEnum .payload, hnew,
      if_neg Bool.false_ne_true] at hcapture
    obtain ⟨⟨data, last⟩, hdata, heq⟩ := Option.map_eq_some_iff.mp hcapture
    obtain ⟨-, rfl⟩ := Prod.mk.inj heq
    obtain ⟨hsame, hvalue⟩ := captureValues_eq_some hdata
    rw [List.append_nil, List.append_nil] at hsame
    rw [hsame]
    exact hvalue
  · intro hvalue
    have hbytes : ToxProto.writeUnknown ⟨BitVec.ofNat 32 idx.toNat, payload⟩ =
        writeArrayLen 2 ++ writeU8 idx ++ payload := by
      simp [ToxProto.writeUnknown, hvalue.ne_nil]
    have hkeeps : older.Keeps ⟨BitVec.ofNat 32 idx.toNat, payload⟩ := by
      refine ⟨?_, .inr hvalue⟩
      simp only [toNat_ofNat_idx]
      exact ⟨idx.toNat_lt, hnew⟩
    refine ⟨⟨BitVec.ofNat 32 idx.toNat, payload⟩, fun rest => ?_, congrArg some hbytes⟩
    rw [← hbytes]
    exact reads_unknown hkeeps rest

end Newer

namespace Program

variable {α : Type} {older : Variants α}

/-- The discriminant of the variant that a value has. -/
def discriminant {F : Ty → Type} : (variants : List VariantDecl) → Choice F variants → UInt8
  | .unit idx :: _, .inl _ => idx
  | .payload idx _ :: _, .inl _ => idx
  | .unit _ :: variants, .inr value => discriminant variants value
  | .payload _ _ :: variants, .inr value => discriminant variants value

/-- The bytes that a newer version writes for a variant without an arm in the older one are
relayed by it, for values whose lengths fit, if and only if no doubled count of a map in the
payload is cut. -/
theorem relays_newer_iff (program : Program) (depth : Nat) {newer : List VariantDecl}
    {value : Choice (program.Val depth) newer} {bytes : Bytes}
    (hwrite : (ToxProto.openEnum (choiceImpl (program.impl depth) newer)).serialize (.inl value) =
      some bytes)
    (hnew : older.knows (discriminant newer value).toNat = false)
    (huncut : FitsChoice (program.Fits uncut depth) newer value) :
    Relays older bytes ↔ FitsChoice (program.Fits skippable depth) newer value := by
  change (choiceImpl (program.impl depth) newer).serialize value = some bytes at hwrite
  induction newer with
  | nil => exact value.elim
  | cons variant newer ih =>
      cases variant with
      | unit idx =>
          cases value with
          | inl value =>
              cases hwrite
              exact iff_of_true (relays_unit hnew) trivial
          | inr value => exact ih hnew huncut hwrite
      | payload idx tys =>
          cases value with
          | inl value =>
              obtain ⟨payload, hpayload, rfl⟩ := Option.map_eq_some_iff.mp hwrite
              obtain ⟨missed, hstream, hiff⟩ :=
                (spans_payload (program.spans depth) tys).stream hpayload huncut
              exact (relays_payload_iff hnew payload).trans (hstream.skips_iff.trans hiff)
          | inr value => exact ih hnew huncut hwrite

theorem relays_newer_number :
    Relays (.nil : Variants Empty) [0x92, 0x07, 0x05] ↔
      FitsChoice (points.Fits skippable 1) [.payload 7 [.scalar .u8]]
        (.inl ((5 : BitVec 8), ())) := by
  have huncut : FitsChoice (points.Fits uncut 1) [.payload 7 [.scalar .u8]]
      (.inl ((5 : BitVec 8), ())) := ⟨trivial, trivial⟩
  exact points.relays_newer_iff 1 rfl rfl huncut

/-- A variant of a newer version with a map whose doubled count is cut is not relayed. -/
theorem not_relays_entries (entries : AssocMap (BitVec 16) Bool) (hlt : entries.size < 2 ^ 32)
    (hcut : ¬ Token.Doubles entries.size) :
    ∃ bytes, (ToxProto.openEnum (choiceImpl (points.impl 2)
        [.payload 7 [.map (.scalar .u16) (.scalar .bool)]])).serialize
          (.inl (.inl (entries, ()))) = some bytes ∧
      ¬ Relays (.nil : Variants Empty) bytes := by
  have hentries : ∀ entry ∈ entries.entries,
      FitsBoth (points.Fits points.readable 1 (.scalar .u16))
        (points.Fits points.readable 1 (.scalar .bool)) entry := fun _ _ => ⟨trivial, trivial⟩
  have hfits : FitsPayload (points.Fits points.readable 2)
      [.map (.scalar .u16) (.scalar .bool)] (entries, ()) := ⟨⟨hlt, hentries⟩, trivial⟩
  have huncut : FitsPayload (points.Fits uncut 2)
      [.map (.scalar .u16) (.scalar .bool)] (entries, ()) := ⟨⟨hlt, hentries⟩, trivial⟩
  obtain ⟨payload, hpayload, -⟩ := (faithful_payload (points.faithful 2) _).written _ hfits
  have hwrite : (Variants.writePayload (eachImpl (points.impl 2)
      [.map (.scalar .u16) (.scalar .bool)]) (entries, ())).map
        (writeArrayLen 2 ++ writeU8 7 ++ ·) = some (writeArrayLen 2 ++ writeU8 7 ++ payload) := by
    rw [hpayload]
    rfl
  refine ⟨writeArrayLen 2 ++ writeU8 7 ++ payload, hwrite, ?_⟩
  rw [relays_payload_iff rfl]
  obtain ⟨missed, hstream, hiff⟩ := (spans_payload (points.spans 2) _).stream hpayload huncut
  intro hvalue
  obtain ⟨⟨hdoubles, -⟩, -⟩ := hiff.mp (hstream.skips_iff.mp hvalue)
  exact hcut hdoubles

/-- A map with a number of entries that a `u16` holds, but not twice. -/
def crowded : AssocMap (BitVec 16) Bool where
  entries := (List.range 32768).map fun key => (BitVec.ofNat 16 key, true)
  nodupKeys := by
    rw [List.map_map]
    refine List.Nodup.map_on (fun first hfirst second hsecond heq => ?_) List.nodup_range
    rw [List.mem_range] at hfirst hsecond
    have hnat := congrArg BitVec.toNat heq
    simp only [Function.comp_apply, BitVec.toNat_ofNat] at hnat
    omega

theorem size_crowded : crowded.size = 32768 := by
  rw [AssocMap.size, crowded, List.length_map, List.length_range]

theorem not_relays_crowded :
    ∃ bytes, (ToxProto.openEnum (choiceImpl (points.impl 2)
        [.payload 7 [.map (.scalar .u16) (.scalar .bool)]])).serialize
          (.inl (.inl (crowded, ()))) = some bytes ∧
      ¬ Relays (.nil : Variants Empty) bytes := by
  refine not_relays_entries crowded ?_ ?_
  · rw [size_crowded]
    decide
  · rw [size_crowded, Token.Doubles]
    omega

end Program

end MerkleTox.Proto
