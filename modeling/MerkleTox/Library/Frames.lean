import Mathlib.Data.List.Basic

/-! # Logs of frames

A log is a sequence of frames one behind the other. A scan takes frames off its front
until the decoder fails, which leaves the tail.
-/

namespace MerkleTox.Library

universe uByte uFrame

variable {Byte : Type uByte} {Frame : Type uFrame}

/-- The decoder takes back what the encoder wrote, whatever stands behind it. -/
structure Decodes (encode : Frame → List Byte) (decode : List Byte → Option (Frame × List Byte))
    (valid : Frame → Prop) : Prop where
  decode_append : ∀ frame, valid frame → ∀ rest,
    decode (encode frame ++ rest) = some (frame, rest)
  encode_ne_nil : ∀ frame, valid frame → encode frame ≠ []

/-- The frames of a log. -/
def encodeAll (encode : Frame → List Byte) (frames : List Frame) : List Byte :=
  frames.flatMap encode

/-- Take frames off the front of the input; the first argument bounds their number. -/
def scan (decode : List Byte → Option (Frame × List Byte)) : Nat → List Byte → List Frame
  | 0, _ => []
  | fuel + 1, input =>
      match decode input with
      | some (frame, rest) => frame :: scan decode fuel rest
      | none => []

variable {encode : Frame → List Byte} {decode : List Byte → Option (Frame × List Byte)}
  {valid : Frame → Prop}

@[simp]
theorem encodeAll_nil : encodeAll encode [] = [] := rfl

theorem encodeAll_cons (frame : Frame) (frames : List Frame) :
    encodeAll encode (frame :: frames) = encode frame ++ encodeAll encode frames :=
  List.flatMap_cons

theorem encodeAll_append (first second : List Frame) :
    encodeAll encode (first ++ second) = encodeAll encode first ++ encodeAll encode second :=
  List.flatMap_append

theorem encodeAll_concat (frames : List Frame) (frame : Frame) :
    encodeAll encode (frames ++ [frame]) = encodeAll encode frames ++ encode frame := by
  rw [encodeAll_append, encodeAll_cons, encodeAll_nil, List.append_nil]

variable {frames before : List Frame}

/-- A log is at least as long as the number of its frames. -/
theorem Decodes.length_le (h : Decodes encode decode valid)
    (hvalid : ∀ frame ∈ frames, valid frame) :
    frames.length ≤ (encodeAll encode frames).length := by
  induction frames with
  | nil => exact Nat.zero_le _
  | cons first rest ih =>
      rw [List.forall_mem_cons] at hvalid
      have hfirst := List.length_pos_iff.mpr (h.encode_ne_nil first hvalid.1)
      rw [encodeAll_cons, List.length_append, List.length_cons]
      have hrest := ih hvalid.2
      omega

/-- A scan finds the frames of a log whose tail is no frame. -/
theorem Decodes.scan_eq (h : Decodes encode decode valid) (hvalid : ∀ frame ∈ frames, valid frame)
    {tail : List Byte} (htail : decode tail = none) {fuel : Nat} (hfuel : frames.length ≤ fuel) :
    scan decode fuel (encodeAll encode frames ++ tail) = frames := by
  induction frames generalizing fuel with
  | nil =>
      cases fuel with
      | zero => rfl
      | succ fuel => rw [encodeAll_nil, List.nil_append, scan, htail]
  | cons first rest ih =>
      rw [List.forall_mem_cons] at hvalid
      cases fuel with
      | zero => cases hfuel
      | succ fuel =>
          rw [encodeAll_cons, List.append_assoc, scan, h.decode_append first hvalid.1]
          exact congrArg _ (ih hvalid.2 (Nat.le_of_succ_le_succ hfuel))

/-- The frame behind other frames is found at their length. -/
theorem Decodes.decode_drop (h : Decodes encode decode valid) {frame : Frame} (hframe : valid frame)
    (rest : List Byte) :
    decode ((encodeAll encode before ++ (encode frame ++ rest)).drop
      (encodeAll encode before).length) = some (frame, rest) := by
  rw [List.drop_left, h.decode_append frame hframe]

end MerkleTox.Library
