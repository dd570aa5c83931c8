import MerkleTox.Proto.Codec

/-! # Skipping values

The recursion of `skip_value` without its bound: skipping is reading one marker and its body
after the other. Bytes that are one value by it are skipped wherever they stand, and what is
skipped does not depend on what follows.
-/

namespace MerkleTox.Proto

variable {n inner more count : Nat} {data rest last other bytes : Bytes} {marker : Marker}

/-! ## One marker -/

/-- A body is read from the bytes in front of a point, or reaches behind it. -/
theorem readExact_split {found out : Bytes} (hread : readExact n (data ++ rest) = some (found, out))
    (hout : rest.length ≤ out.length) :
    ∃ left, out = left ++ rest ∧ readExact n data = some (found, left) := by
  unfold readExact at hread
  split at hread
  next hle =>
    cases hread
    rw [List.length_drop, List.length_append] at hout
    rw [List.length_append] at hle
    have hn : n ≤ data.length := by omega
    refine ⟨data.drop n, List.drop_append_of_le_length hn, ?_⟩
    rw [readExact, if_pos hn, List.take_append_of_le_length hn]
  next => cases hread

theorem suffix_readExact {input out : Bytes} (hread : readExact n input = some (data, out)) :
    out <:+ input := by
  unfold readExact at hread
  split at hread
  next =>
    cases hread
    exact List.drop_suffix n input
  next => cases hread

theorem readBe_split {width value : Nat} {out : Bytes}
    (hread : readBe width (data ++ rest) = some (value, out)) (hout : rest.length ≤ out.length) :
    ∃ left, out = left ++ rest ∧ readBe width data = some (value, left) := by
  obtain ⟨⟨found, tail⟩, hfound, heq⟩ := Option.map_eq_some_iff.mp hread
  cases heq
  obtain ⟨left, rfl, hleft⟩ := readExact_split hfound hout
  exact ⟨left, rfl, by rw [readBe, hleft, Option.map_some]⟩

theorem suffix_readBe {width value : Nat} {input out : Bytes}
    (hread : readBe width input = some (value, out)) : out <:+ input := by
  obtain ⟨⟨found, tail⟩, hfound, heq⟩ := Option.map_eq_some_iff.mp hread
  cases heq
  exact suffix_readExact hfound

namespace Marker

/-- What the body of a marker is: nothing, a number of bytes, a length and as many bytes,
or a number of values. -/
inductive Body (marker : Marker) : Prop
  | inline (inner : Nat) (h : ∀ input, marker.body input = some (inner, input))
  | reserved (h : ∀ input, marker.body input = none)
  | bytes (n : Nat)
      (h : ∀ input, marker.body input = (readExact n input).map fun (_, rest) => (0, rest))
  | prefixed (width : Nat) (size : Nat → Nat)
      (h : ∀ input, marker.body input = do
        let (len, rest) ← readBe width input
        let (_, rest) ← readExact (size len) rest
        some (0, rest))
  | counted (width : Nat) (size : Nat → Nat)
      (h : ∀ input, marker.body input = (readBe width input).map fun (len, rest) =>
        (size len, rest))

theorem body_spec (marker : Marker) : marker.Body := by
  cases marker with
  | fixPos value | fixNeg value | null | bool => exact .inline 0 fun _ => rfl
  | reserved => exact .reserved fun _ => rfl
  | uint width | sint width | float width => exact .bytes width fun _ => rfl
  | fixStr len => exact .bytes len fun _ => rfl
  | bin width | str width => exact .prefixed width id fun _ => rfl
  | fixArray len => exact .inline len fun _ => rfl
  | array width => exact .counted width id fun input => Option.map_id'.symm
  | fixMap len => exact .inline (len * 2) fun _ => rfl
  | map width => exact .counted width (fun len => len * 2 % 256 ^ width) fun _ => rfl
  | fixExt len => exact .bytes (1 + len) fun _ => rfl
  | ext width => exact .prefixed width (fun len => 1 + len) fun _ => rfl

theorem suffix_body {input out : Bytes} (hbody : marker.body input = some (inner, out)) :
    out <:+ input := by
  cases marker.body_spec with
  | inline _ h =>
      rw [h] at hbody
      cases hbody
      exact List.suffix_rfl
  | reserved h =>
      rw [h] at hbody
      cases hbody
  | bytes n h =>
      rw [h] at hbody
      obtain ⟨⟨data, tail⟩, hdata, heq⟩ := Option.map_eq_some_iff.mp hbody
      cases heq
      exact suffix_readExact hdata
  | prefixed width size h =>
      rw [h] at hbody
      obtain ⟨⟨len, middle⟩, hlen, hbody⟩ := Option.bind_eq_some_iff.mp hbody
      obtain ⟨⟨data, tail⟩, hdata, heq⟩ := Option.bind_eq_some_iff.mp hbody
      cases heq
      exact (suffix_readExact hdata).trans (suffix_readBe hlen)
  | counted width size h =>
      rw [h] at hbody
      obtain ⟨⟨len, tail⟩, hlen, heq⟩ := Option.map_eq_some_iff.mp hbody
      cases heq
      exact suffix_readBe hlen

theorem body_split {out : Bytes} (hbody : marker.body (data ++ rest) = some (inner, out))
    (hout : rest.length ≤ out.length) :
    ∃ left, out = left ++ rest ∧ marker.body data = some (inner, left) := by
  cases marker.body_spec with
  | inline _ h =>
      rw [h] at hbody
      cases hbody
      exact ⟨data, rfl, h data⟩
  | reserved h =>
      rw [h] at hbody
      cases hbody
  | bytes n h =>
      rw [h] at hbody
      obtain ⟨⟨found, tail⟩, hfound, heq⟩ := Option.map_eq_some_iff.mp hbody
      cases heq
      obtain ⟨left, rfl, hleft⟩ := readExact_split hfound hout
      exact ⟨left, rfl, by rw [h, hleft, Option.map_some]⟩
  | prefixed width size h =>
      rw [h] at hbody
      obtain ⟨⟨len, middle⟩, hlen, hbody⟩ := Option.bind_eq_some_iff.mp hbody
      obtain ⟨⟨found, tail⟩, hfound, heq⟩ := Option.bind_eq_some_iff.mp hbody
      cases heq
      obtain ⟨between, rfl, hbetween⟩ :=
        readBe_split hlen (hout.trans (suffix_readExact hfound).length_le)
      obtain ⟨left, rfl, hleft⟩ := readExact_split hfound hout
      exact ⟨left, rfl, by simp [h, hbetween, hleft]⟩
  | counted width size h =>
      rw [h] at hbody
      obtain ⟨⟨len, tail⟩, hlen, heq⟩ := Option.map_eq_some_iff.mp hbody
      cases heq
      obtain ⟨left, rfl, hleft⟩ := readBe_split hlen hout
      exact ⟨left, rfl, by rw [h, hleft, Option.map_some]⟩

end Marker

/-! ## Without the bound -/

theorem readMarker_eq {input out : Bytes} (hread : readMarker input = some (marker, out)) :
    ∃ byte, input = byte :: out := by
  cases input with
  | nil => cases hread
  | cons byte input =>
      cases hread
      exact ⟨byte, rfl⟩

/-- A marker and its body are at least one byte. -/
theorem length_round {input tail : Bytes} (hmarker : readMarker input = some (marker, tail))
    (hbody : marker.body tail = some (inner, last)) : last.length < input.length := by
  obtain ⟨byte, rfl⟩ := readMarker_eq hmarker
  exact Nat.lt_succ_of_le (Marker.suffix_body hbody).length_le

/-- Rounds beyond the number of bytes make no difference. -/
theorem go_congr {rounds pending : Nat} {input : Bytes} (hrounds : input.length < rounds)
    (hmore : input.length < more) :
    skipValues.go rounds pending input = skipValues.go more pending input := by
  induction rounds generalizing more pending input with
  | zero => omega
  | succ rounds ih =>
      obtain ⟨fewer, rfl⟩ : ∃ fewer, more = fewer + 1 := ⟨more - 1, by omega⟩
      cases pending with
      | zero => simp [skipValues.go]
      | succ pending =>
          rw [skipValues.go, skipValues.go]
          refine Option.bind_congr fun head hmarker => ?_
          refine Option.bind_congr fun last hbody => ?_
          have hlast : last.2.length < input.length := length_round hmarker hbody
          exact ih (by omega) (by omega)

/-- One round: a marker, its body, and what is then pending. -/
theorem skipValues_succ (input : Bytes) (pending : Nat) :
    skipValues input (pending + 1) = (do
      let (marker, rest) ← readMarker input
      let (inner, rest) ← marker.body rest
      skipValues rest (inner + pending)) := by
  rw [skipValues, skipValues.go]
  refine Option.bind_congr fun head hmarker => ?_
  refine Option.bind_congr fun last hbody => ?_
  exact go_congr (length_round hmarker hbody) (Nat.lt_succ_self _)

/-- Skipping by rounds: no value is pending, or a marker and its body are read. -/
inductive Skips : Bytes → Nat → Bytes → Prop
  | done (rest : Bytes) : Skips rest 0 rest
  | round {input tail last out : Bytes} {marker : Marker} {inner pending : Nat}
      (hmarker : readMarker input = some (marker, tail))
      (hbody : marker.body tail = some (inner, last))
      (hrest : Skips last (inner + pending) out) : Skips input (pending + 1) out

theorem skips_iff {input out : Bytes} {pending : Nat} :
    Skips input pending out ↔ skipValues input pending = some out := by
  constructor
  · intro h
    induction h with
    | done rest => exact skipValues_zero rest
    | round hmarker hbody _ ih => simp [skipValues_succ, hmarker, hbody, ih]
  · induction hlen : input.length using Nat.strong_induction_on generalizing input pending with
    | _ n ih =>
      subst hlen
      intro h
      cases pending with
      | zero =>
          rw [skipValues_zero] at h
          cases h
          exact .done _
      | succ pending =>
          rw [skipValues_succ] at h
          obtain ⟨⟨marker, tail⟩, hmarker, h⟩ := Option.bind_eq_some_iff.mp h
          obtain ⟨⟨inner, last⟩, hbody, h⟩ := Option.bind_eq_some_iff.mp h
          exact .round hmarker hbody (ih last.length (length_round hmarker hbody) rfl h)

namespace Skips

variable {input out : Bytes} {pending : Nat}

theorem length_le (h : Skips input pending out) : out.length + pending ≤ input.length := by
  induction h with
  | done rest => exact le_rfl
  | round hmarker hbody _ ih =>
      have hlast := length_round hmarker hbody
      omega

theorem suffix (h : Skips input pending out) : out <:+ input := by
  induction h with
  | done rest => exact List.suffix_rfl
  | round hmarker hbody _ ih =>
      obtain ⟨byte, rfl⟩ := readMarker_eq hmarker
      exact (ih.trans (Marker.suffix_body hbody)).trans (List.suffix_cons byte _)

/-- Values are skipped one part after the other. -/
theorem append (h : Skips input pending out) (hmore : Skips out more last) :
    Skips input (pending + more) last := by
  induction h with
  | done rest => rwa [Nat.zero_add]
  | @round input tail middle out marker inner pending hmarker hbody _ ih =>
      rw [Nat.add_right_comm]
      refine .round hmarker hbody ?_
      rw [← Nat.add_assoc]
      exact ih hmore

/-- Skipping stops between two parts of the values. -/
theorem divide (h : Skips input (pending + more) last) :
    ∃ middle, Skips input pending middle ∧ Skips middle more last := by
  generalize hsum : pending + more = total at h
  induction h generalizing pending with
  | done rest =>
      obtain ⟨rfl, rfl⟩ : pending = 0 ∧ more = 0 := by omega
      exact ⟨rest, .done rest, .done rest⟩
  | @round input tail middle out marker inner total hmarker hbody hrest ih =>
      cases pending with
      | zero =>
          rw [Nat.zero_add] at hsum
          subst hsum
          exact ⟨input, .done input, .round hmarker hbody hrest⟩
      | succ pending =>
          have htotal : inner + pending + more = inner + total := by omega
          obtain ⟨between, hleft, hright⟩ := ih htotal
          exact ⟨between, .round hmarker hbody hleft, hright⟩

/-- What follows is left alone. -/
theorem append_right (rest : Bytes) (h : Skips input pending out) :
    Skips (input ++ rest) pending (out ++ rest) := by
  rw [skips_iff] at h ⊢
  refine go_append_right rest ?_ h
  rw [List.length_append]
  omega

/-- Skipping that ends in front of a point does not depend on what is behind it. -/
theorem split (h : Skips (data ++ rest) pending out) (hout : rest.length ≤ out.length) :
    ∃ left, out = left ++ rest ∧ Skips data pending left := by
  generalize hinput : data ++ rest = input at h
  induction h generalizing data with
  | done last =>
      subst hinput
      exact ⟨data, rfl, .done data⟩
  | @round input tail last out marker inner pending hmarker hbody hrest ih =>
      subst hinput
      have hshort := hrest.length_le
      have hlast := length_round hmarker hbody
      cases data with
      | nil =>
          rw [List.nil_append] at hlast
          omega
      | cons byte data =>
          cases hmarker
          obtain ⟨left, rfl, hleft⟩ := Marker.body_split hbody (by omega)
          obtain ⟨front, rfl, hfront⟩ := ih hout rfl
          exact ⟨front, rfl, .round rfl hleft hfront⟩

/-- The bytes that were skipped are as many values on their own. -/
theorem front (h : Skips input pending out) :
    ∃ data, input = data ++ out ∧ Skips data pending [] := by
  obtain ⟨data, rfl⟩ := h.suffix
  obtain ⟨left, heq, hdata⟩ := h.split le_rfl
  rw [List.self_eq_append_left.mp heq] at hdata
  exact ⟨data, rfl, hdata⟩

theorem unique (h : Skips input pending out) (hother : Skips input pending other) :
    out = other := by
  rw [skips_iff] at h hother
  exact Option.some.inj (h.symm.trans hother)

end Skips

/-! ## Single values -/

/-- The bytes of one value, as `skip_value` sees it. -/
def IsValue (bytes : Bytes) : Prop := Skips bytes 1 []

theorem IsValue.ne_nil (h : IsValue bytes) : bytes ≠ [] := by
  rintro rfl
  have hlen := h.length_le
  simp at hlen

/-- The bytes of one value are not those of several. -/
theorem IsValue.count_eq (h : IsValue bytes) (hcount : Skips bytes (1 + count) []) : count = 0 := by
  obtain ⟨middle, hfirst, hothers⟩ := hcount.divide
  have hnil : middle = [] := hfirst.unique h
  have hlen := hothers.length_le
  rw [hnil] at hlen
  simpa using hlen

/-- Values one after the other are as many values. -/
theorem IsValue.skips_flatten {extras : List Bytes} (h : ∀ extra ∈ extras, IsValue extra)
    (rest : Bytes) : Skips (extras.flatten ++ rest) extras.length rest := by
  induction extras with
  | nil => exact .done rest
  | cons extra extras ih =>
      rw [List.forall_mem_cons] at h
      rw [List.flatten_cons, List.append_assoc, List.length_cons, Nat.add_comm]
      exact (h.1.append_right (extras.flatten ++ rest)).append (ih h.2)

/-- What is captured are the bytes of the values. -/
theorem captureValues_eq_some {input out : Bytes}
    (hcapture : captureValues n input = some (data, out)) :
    input = data ++ out ∧ Skips data n [] := by
  induction n generalizing input data with
  | zero =>
      cases hcapture
      exact ⟨rfl, .done []⟩
  | succ n ih =>
      obtain ⟨rest, hrest, hcapture⟩ := Option.bind_eq_some_iff.mp hcapture
      obtain ⟨⟨more, last⟩, hmore, heq⟩ := Option.bind_eq_some_iff.mp hcapture
      cases heq
      obtain ⟨rfl, hvalues⟩ := ih hmore
      obtain ⟨first, rfl, hfirst⟩ := (skips_iff.mpr hrest).front
      have htake : (first ++ (more ++ out)).take
          ((first ++ (more ++ out)).length - (more ++ out).length) = first := by
        rw [List.length_append, Nat.add_sub_cancel, List.take_left]
      rw [htake]
      refine ⟨(List.append_assoc _ _ _).symm, ?_⟩
      rw [Nat.add_comm]
      exact (hfirst.append_right more).append hvalues

theorem captureValues_value (h : IsValue data) :
    captureValues 1 (data ++ rest) = some (data, rest) :=
  captureValues_one rest (skips_iff.mp h)

end MerkleTox.Proto
