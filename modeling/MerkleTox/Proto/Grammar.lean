import MerkleTox.Proto.MessagePack

/-! # MessagePack as a grammar

What the format puts behind the first byte of a value: so many bytes, a length and as many
bytes, so many values, or a count and as many values, for a map two for each entry. Well-formed
values are told apart from their neighbours without looking behind them.
-/

namespace MerkleTox.Proto

inductive Shape
  | bytes (n : Nat)
  | prefixed (width extra : Nat)
  | items (count : Nat)
  | array (width : Nat)
  | map (width : Nat)
  deriving DecidableEq, Repr

/-- The formats of the specification; the first byte `0xc1` is never used. -/
def Marker.shape : Marker → Option Shape
  | .fixPos _ | .fixNeg _ | .null | .bool => some (.bytes 0)
  | .reserved => none
  | .uint width | .sint width | .float width => some (.bytes width)
  | .fixStr len => some (.bytes len)
  | .bin width | .str width => some (.prefixed width 0)
  | .fixArray len => some (.items len)
  | .array width => some (.array width)
  | .fixMap len => some (.items (2 * len))
  | .map width => some (.map width)
  | .fixExt len => some (.bytes (1 + len))
  | .ext width => some (.prefixed width 1)

/-- A value starts: up to the values inside it, of which there are `count`. Of the maps with a
count of their own only some may be admitted, by the width of the count and the count. -/
inductive Starts (maps : Nat → Nat → Prop) : Bytes → Nat → Bytes → Prop
  | bytes {byte : UInt8} {payload rest : Bytes}
      (hshape : (Marker.ofByte byte).shape = some (.bytes payload.length)) :
      Starts maps (byte :: (payload ++ rest)) 0 rest
  | prefixed {byte : UInt8} {header payload rest : Bytes} {extra : Nat}
      (hshape : (Marker.ofByte byte).shape = some (.prefixed header.length extra))
      (hlength : payload.length = fromBe header + extra) :
      Starts maps (byte :: (header ++ (payload ++ rest))) 0 rest
  | items {byte : UInt8} {count : Nat} {rest : Bytes}
      (hshape : (Marker.ofByte byte).shape = some (.items count)) :
      Starts maps (byte :: rest) count rest
  | array {byte : UInt8} {header rest : Bytes}
      (hshape : (Marker.ofByte byte).shape = some (.array header.length)) :
      Starts maps (byte :: (header ++ rest)) (fromBe header) rest
  | map {byte : UInt8} {header rest : Bytes}
      (hshape : (Marker.ofByte byte).shape = some (.map header.length))
      (hmap : maps header.length (fromBe header)) :
      Starts maps (byte :: (header ++ rest)) (2 * fromBe header) rest

/-- The bytes of one value whose maps are admitted. -/
inductive IsMessage (maps : Nat → Nat → Prop) : Bytes → Prop
  | mk {bytes : Bytes} (values : List Bytes)
      (hstarts : Starts maps bytes values.length values.flatten)
      (hvalues : ∀ value ∈ values, IsMessage maps value) : IsMessage maps bytes

/-- A well-formed value, with any maps. -/
def WellFormed (bytes : Bytes) : Prop := IsMessage (fun _ _ => True) bytes

/-- A number of values one behind the other, read from the left. -/
inductive ReadsRow (maps : Nat → Nat → Prop) : Bytes → Nat → Bytes → Prop
  | done (rest : Bytes) : ReadsRow maps rest 0 rest
  | round {input last out : Bytes} {count pending : Nat}
      (hstarts : Starts maps input count last)
      (hrest : ReadsRow maps last (count + pending) out) : ReadsRow maps input (pending + 1) out

variable {maps : Nat → Nat → Prop} {input last out : Bytes} {count pending : Nat}

namespace Starts

/-- What follows is left alone. -/
theorem append_right (h : Starts maps input count last) (rest : Bytes) :
    Starts maps (input ++ rest) count (last ++ rest) := by
  cases h with
  | bytes hshape => simpa using Starts.bytes hshape
  | prefixed hshape hlength => simpa using Starts.prefixed hshape hlength
  | items hshape => exact .items hshape
  | array hshape => simpa using Starts.array hshape
  | map hshape hmap => simpa using Starts.map hshape hmap

theorem front (h : Starts maps input count last) :
    ∃ head, input = head ++ last ∧ head ≠ [] ∧ ∀ other, Starts maps (head ++ other) count other := by
  cases h with
  | @bytes byte payload rest hshape =>
      exact ⟨byte :: payload, rfl, nofun, fun other => .bytes hshape⟩
  | @prefixed byte header payload rest extra hshape hlength =>
      refine ⟨byte :: (header ++ payload), by simp, nofun, fun other => ?_⟩
      simpa using @Starts.prefixed maps byte header payload other extra hshape hlength
  | @items byte count rest hshape => exact ⟨[byte], rfl, nofun, fun other => .items hshape⟩
  | @array byte header rest hshape =>
      exact ⟨byte :: header, rfl, nofun, fun other => .array hshape⟩
  | @map byte header rest hshape hmap =>
      exact ⟨byte :: header, rfl, nofun, fun other => .map hshape hmap⟩

theorem length_lt (h : Starts maps input count last) : last.length < input.length := by
  obtain ⟨head, rfl, hne, -⟩ := h.front
  have hpos := List.length_pos_iff.mpr hne
  rw [List.length_append]
  omega

end Starts

namespace ReadsRow

theorem length_le (h : ReadsRow maps input pending out) : out.length + pending ≤ input.length := by
  induction h with
  | done rest => exact le_rfl
  | round hstarts _ ih =>
      have hlt := hstarts.length_lt
      omega

theorem append {more : Nat} {final : Bytes} (h : ReadsRow maps input pending out)
    (hmore : ReadsRow maps out more final) : ReadsRow maps input (pending + more) final := by
  induction h with
  | done rest => rwa [Nat.zero_add]
  | @round input last out count pending hstarts _ ih =>
      rw [Nat.add_right_comm]
      refine .round hstarts ?_
      rw [← Nat.add_assoc]
      exact ih hmore

/-- What is read one behind the other are so many values. -/
theorem exists_values (h : ReadsRow maps input pending out) :
    ∃ values : List Bytes, values.length = pending ∧ input = values.flatten ++ out ∧
      ∀ value ∈ values, IsMessage maps value := by
  induction h with
  | done rest => exact ⟨[], rfl, rfl, nofun⟩
  | @round input last out count pending hstarts _ ih =>
      obtain ⟨values, hlength, hlast, hvalues⟩ := ih
      obtain ⟨head, rfl, -, hhead⟩ := hstarts.front
      -- the first of them are inside the value that starts here
      have hinner : (values.take count).length = count := by
        rw [List.length_take]
        omega
      refine ⟨(head ++ (values.take count).flatten) :: values.drop count, ?_, ?_, ?_⟩
      · rw [List.length_cons, List.length_drop]
        omega
      · rw [hlast, List.flatten_cons, List.append_assoc, List.append_assoc, ← List.append_assoc
          (values.take count).flatten, ← List.flatten_append, List.take_append_drop]
      · intro value hmem
        rcases List.mem_cons.mp hmem with rfl | hrest
        · refine .mk (values.take count) ?_ fun value hvalue =>
            hvalues value (List.mem_of_mem_take hvalue)
          rw [hinner]
          exact hhead _
        · exact hvalues value (List.mem_of_mem_drop hrest)

end ReadsRow

/-- A value is read up to its end. -/
theorem IsMessage.reads {value : Bytes} (h : IsMessage maps value) (rest : Bytes) :
    ReadsRow maps (value ++ rest) 1 rest := by
  induction h generalizing rest with
  | @mk bytes values hstarts _ ih =>
      have hinner : ∀ inner : List Bytes, (∀ value ∈ inner, value ∈ values) →
          ReadsRow maps (inner.flatten ++ rest) inner.length rest := by
        intro inner
        induction inner with
        | nil => exact fun _ => .done rest
        | cons value inner ihInner =>
            intro hmem
            rw [List.flatten_cons, List.append_assoc, List.length_cons, Nat.add_comm]
            exact (ih value (hmem value List.mem_cons_self) _).append
              (ihInner fun other hother => hmem other (List.mem_cons_of_mem _ hother))
      exact .round (hstarts.append_right rest) (hinner values fun _ hmem => hmem)

/-- Bytes that are read as one value are that value. -/
theorem isMessage_of_reads {value rest : Bytes} (h : ReadsRow maps (value ++ rest) 1 rest) :
    IsMessage maps value := by
  obtain ⟨values, hlength, heq, hvalues⟩ := h.exists_values
  obtain ⟨only, rfl⟩ := List.length_eq_one_iff.mp hlength
  rw [List.flatten_singleton, List.append_cancel_right_eq] at heq
  exact heq ▸ hvalues only List.mem_cons_self

end MerkleTox.Proto
