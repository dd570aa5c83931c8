import MerkleTox.Proto.Grammar
import MerkleTox.Proto.Skipping

/-! # Skipping one value

`skip_value` as it calls itself for the values inside a value, with the doubled count of a map
as the number of a machine: a build that checks its arithmetic panics where the double does not
fit, one that does not goes on with what is left of it.
-/

namespace MerkleTox.Proto

/-- Whether the build checks for overflow. -/
inductive Arithmetic
  | checked
  | wrapping
  deriving DecidableEq, Repr

/-- Why a value is not skipped; `depth` stands for calls that were not followed any further. -/
inductive SkipError
  | io
  | reserved
  | overflow
  | depth
  deriving DecidableEq, Repr

/-- `len * 2` in the type of the length. -/
def Arithmetic.double (arithmetic : Arithmetic) (width len : Nat) : Except SkipError Nat :=
  match arithmetic with
  | .wrapping => .ok (len * 2 % 256 ^ width)
  | .checked => if len * 2 < 256 ^ width then .ok (len * 2) else .error .overflow

/-- The marker with the bytes that belong to it, and the number of rounds of its loop. -/
def skipHead (arithmetic : Arithmetic) (input : Bytes) : Except SkipError (Nat × Bytes) :=
  match readMarker input with
  | none => .error .io
  | some (.reserved, _) => .error .reserved
  | some (.map width, rest) =>
      match readBe width rest with
      | none => .error .io
      | some (len, rest) => do
          let rounds ← arithmetic.double width len
          .ok (rounds, rest)
  | some (marker, rest) =>
      match marker.body rest with
      | none => .error .io
      | some (rounds, rest) => .ok (rounds, rest)

/-- `for _ in 0..rounds`. -/
def skipTimes (skip : Bytes → Except SkipError Bytes) : Nat → Bytes → Except SkipError Bytes
  | 0, rest => .ok rest
  | rounds + 1, rest => do
      let rest ← skip rest
      skipTimes skip rounds rest

/-- `skip_value`, to a depth of its calls. -/
def skipValue (arithmetic : Arithmetic) : Nat → Bytes → Except SkipError Bytes
  | 0, _ => .error .depth
  | depth + 1, input => do
      let (rounds, rest) ← skipHead arithmetic input
      skipTimes (skipValue arithmetic depth) rounds rest

variable {arithmetic : Arithmetic} {input last out : Bytes} {rounds depth count pending : Nat}

/-! ## The calls end -/

theorem skipHead_length_lt (h : skipHead arithmetic input = .ok (rounds, last)) :
    last.length < input.length := by
  unfold skipHead at h
  split at h
  next => cases h
  next => cases h
  next width rest hmarker =>
    obtain ⟨byte, rfl⟩ := readMarker_eq hmarker
    split at h
    next => cases h
    next len tail hlen =>
      cases hdouble : arithmetic.double width len with
      | error err =>
          rw [hdouble] at h
          cases h
      | ok doubled =>
          rw [hdouble] at h
          cases h
          exact Nat.lt_succ_of_le (suffix_readBe hlen).length_le
  next marker rest _ _ hmarker =>
    split at h
    next => cases h
    next found tail hbody =>
      cases h
      exact length_round hmarker hbody

theorem skipHead_ne_depth : skipHead arithmetic input ≠ .error .depth := by
  unfold skipHead
  split
  next => nofun
  next => nofun
  next width rest hmarker =>
    split
    next => nofun
    next len tail hlen =>
      unfold Arithmetic.double
      cases arithmetic with
      | wrapping => nofun
      | checked =>
          dsimp only
          split <;> nofun
  next => split <;> nofun

variable {skip : Bytes → Except SkipError Bytes}

/-- A loop whose rounds do not read backwards does not, either. -/
theorem skipTimes_length_le (hskip : ∀ input out, skip input = .ok out → out.length < input.length)
    (h : skipTimes skip rounds input = .ok out) : out.length ≤ input.length := by
  induction rounds generalizing input with
  | zero =>
      cases h
      exact le_rfl
  | succ rounds ih =>
      rw [skipTimes] at h
      cases hfirst : skip input with
      | error err =>
          rw [hfirst] at h
          cases h
      | ok middle =>
          rw [hfirst] at h
          exact (ih h).trans (hskip input middle hfirst).le

theorem skipValue_length_lt (h : skipValue arithmetic depth input = .ok out) :
    out.length < input.length := by
  induction depth generalizing input out with
  | zero => cases h
  | succ depth ih =>
      rw [skipValue] at h
      cases hhead : skipHead arithmetic input with
      | error err =>
          rw [hhead] at h
          cases h
      | ok head =>
          rw [hhead] at h
          exact (skipTimes_length_le (fun _ _ => ih) h).trans_lt (skipHead_length_lt hhead)

/-- Loops whose rounds agree on what is left of the input agree. -/
theorem skipTimes_congr {skip other : Bytes → Except SkipError Bytes}
    (hskip : ∀ input out, skip input = .ok out → out.length < input.length)
    (hsame : ∀ shorter : Bytes, shorter.length ≤ input.length → skip shorter = other shorter) :
    skipTimes skip rounds input = skipTimes other rounds input := by
  induction rounds generalizing input with
  | zero => rfl
  | succ rounds ih =>
      rw [skipTimes, skipTimes, ← hsame input le_rfl]
      cases hfirst : skip input with
      | error err => rfl
      | ok middle =>
          have hlt := hskip input middle hfirst
          exact ih fun shorter hshorter => hsame shorter (hshorter.trans hlt.le)

/-- Calls deeper than the input is long make no difference. -/
theorem skipValue_congr {other : Nat} (hdepth : input.length < depth)
    (hother : input.length < other) :
    skipValue arithmetic depth input = skipValue arithmetic other input := by
  induction depth generalizing other input with
  | zero => omega
  | succ depth ih =>
      obtain ⟨fewer, rfl⟩ : ∃ fewer, other = fewer + 1 := ⟨other - 1, by omega⟩
      rw [skipValue, skipValue]
      cases hhead : skipHead arithmetic input with
      | error err => rfl
      | ok head =>
          have hlt := skipHead_length_lt hhead
          refine skipTimes_congr (fun _ _ h => skipValue_length_lt h) fun shorter hshorter => ?_
          exact ih (by omega) (by omega)

theorem skipTimes_ne_depth (hskip : ∀ input out, skip input = .ok out → out.length < input.length)
    (hends : ∀ shorter : Bytes, shorter.length ≤ input.length → skip shorter ≠ .error .depth) :
    skipTimes skip rounds input ≠ .error .depth := by
  induction rounds generalizing input with
  | zero => nofun
  | succ rounds ih =>
      rw [skipTimes]
      cases hfirst : skip input with
      | error err =>
          intro heq
          exact hends input le_rfl (hfirst.trans heq)
      | ok middle =>
          have hlt := hskip input middle hfirst
          exact ih fun shorter hshorter => hends shorter (hshorter.trans hlt.le)

/-- Every input is gone through. -/
theorem skipValue_ne_depth (hdepth : input.length < depth) :
    skipValue arithmetic depth input ≠ .error .depth := by
  induction depth generalizing input with
  | zero => omega
  | succ depth ih =>
      rw [skipValue]
      cases hhead : skipHead arithmetic input with
      | error err =>
          intro heq
          cases heq
          exact skipHead_ne_depth hhead
      | ok head =>
          have hlt := skipHead_length_lt hhead
          refine skipTimes_ne_depth (fun _ _ h => skipValue_length_lt h) fun shorter hshorter => ?_
          exact ih (by omega)

/-- A loop over a row of values, each of which is skipped and leaves the others. -/
theorem skipTimes_of_step (row : Nat → Bytes → Prop)
    (hshort : ∀ input out, skip input = .ok out → out.length < input.length)
    (hskip : ∀ pending (input : Bytes), input.length < depth → row (pending + 1) input →
      ∃ middle, skip input = .ok middle ∧ row pending middle) (hdepth : input.length < depth)
    (h : row (rounds + pending) input) :
    ∃ middle, skipTimes skip rounds input = .ok middle ∧ row pending middle := by
  induction rounds generalizing input with
  | zero =>
      rw [Nat.zero_add] at h
      exact ⟨input, rfl, h⟩
  | succ rounds ih =>
      rw [Nat.add_right_comm] at h
      obtain ⟨middle, hfirst, hrest⟩ := hskip (rounds + pending) input hdepth h
      obtain ⟨last, hothers, hlast⟩ := ih ((hshort input middle hfirst).trans hdepth) hrest
      refine ⟨last, ?_, hlast⟩
      rw [skipTimes, hfirst]
      exact hothers

/-! ## Rounds -/

theorem skipHead_wrapping_iff : skipHead .wrapping input = .ok (rounds, last) ↔
    ∃ marker tail, readMarker input = some (marker, tail) ∧
      marker.body tail = some (rounds, last) := by
  unfold skipHead
  cases hmarker : readMarker input with
  | none => exact iff_of_false (by rintro ⟨⟩) (by rintro ⟨_, _, ⟨⟩, _⟩)
  | some head =>
      obtain ⟨marker, tail⟩ := head
      have hsame : (∃ other rest, some (marker, tail) = some (other, rest) ∧
          other.body rest = some (rounds, last)) ↔ marker.body tail = some (rounds, last) := by
        refine ⟨?_, fun hbody => ⟨_, _, rfl, hbody⟩⟩
        rintro ⟨_, _, ⟨⟩, hbody⟩
        exact hbody
      rw [hsame]
      cases marker with
      | reserved => exact iff_of_false (by rintro ⟨⟩) (by rintro ⟨⟩)
      | map width =>
          simp only [Marker.body]
          cases readBe width tail with
          | none => exact iff_of_false (by rintro ⟨⟩) (by rintro ⟨⟩)
          | some count =>
              show Except.ok (count.1 * 2 % 256 ^ width, count.2) = Except.ok _ ↔
                some (count.1 * 2 % 256 ^ width, count.2) = some _
              rw [Except.ok.injEq, Option.some.injEq]
      | _ =>
          dsimp only
          split
          next hbody => rw [hbody]; exact iff_of_false (by rintro ⟨⟩) (by rintro ⟨⟩)
          next hbody => rw [hbody, Except.ok.injEq, Option.some.injEq]

/-- Without checks the calls skip what the rounds of pending values skip. -/
theorem skipValue_wrapping_iff (hdepth : input.length < depth) :
    skipValue .wrapping depth input = .ok out ↔ Skips input 1 out := by
  -- From the code to the rows by induction on the depth; within it the inner loop, by induction
  -- on its rounds.
  have hsound : ∀ depth (input out : Bytes), skipValue .wrapping depth input = .ok out →
      Skips input 1 out := by
    intro depth
    induction depth with
    | zero => nofun
    | succ depth ih =>
        have hloop : ∀ rounds (input out : Bytes),
            skipTimes (skipValue .wrapping depth) rounds input = .ok out →
              Skips input rounds out := by
          intro rounds
          induction rounds with
          | zero =>
              intro input out h
              cases h
              exact .done input
          | succ rounds ihRounds =>
              intro input out h
              rw [skipTimes] at h
              cases hfirst : skipValue .wrapping depth input with
              | error err =>
                  rw [hfirst] at h
                  cases h
              | ok middle =>
                  rw [hfirst] at h
                  rw [Nat.add_comm]
                  exact (ih input middle hfirst).append (ihRounds middle out h)
        intro input out h
        rw [skipValue] at h
        cases hhead : skipHead .wrapping input with
        | error err =>
            rw [hhead] at h
            cases h
        | ok head =>
            rw [hhead] at h
            obtain ⟨marker, tail, hmarker, hbody⟩ := skipHead_wrapping_iff.mp hhead
            exact .round hmarker hbody (hloop _ _ _ h)
  -- Conversely each round consumes a byte, so a depth beyond the length never runs out.
  have hcomplete : ∀ pending (input : Bytes), input.length < depth →
      Skips input (pending + 1) out →
        ∃ middle, skipValue .wrapping depth input = .ok middle ∧ Skips middle pending out := by
    clear hdepth
    induction depth with
    | zero => exact fun _ _ hlt => absurd hlt (Nat.not_lt_zero _)
    | succ depth ih =>
        intro pending input hdepth h
        cases h with
        | @round _ tail last _ marker inner _ hmarker hbody hrest =>
            have hlt := length_round hmarker hbody
            rw [skipValue, skipHead_wrapping_iff.mpr ⟨marker, tail, hmarker, hbody⟩]
            exact skipTimes_of_step (fun pending input => Skips input pending out)
              (fun _ _ => skipValue_length_lt) ih (by omega) hrest
  refine ⟨hsound depth input out, fun h => ?_⟩
  obtain ⟨middle, hskip, hrest⟩ := hcomplete 0 input hdepth h
  cases hrest
  exact hskip

/-! ## The grammar -/

/-- The double of the count fits the type of the count. -/
def MapFits (width len : Nat) : Prop := len * 2 < 256 ^ width

theorem readExact_payload (payload rest : Bytes) :
    readExact payload.length (payload ++ rest) = some (payload, rest) :=
  readExact_append payload rest

theorem readBe_header (header rest : Bytes) :
    readBe header.length (header ++ rest) = some (fromBe header, rest) := by
  rw [readBe, readExact_append]
  rfl

namespace Marker

variable {marker : Marker} {width extra n : Nat}

/-- The marker is one that the code reads the body of in one piece. -/
def IsPlain (marker : Marker) : Prop := marker ≠ .reserved ∧ ∀ width, marker ≠ .map width

theorem body_bytes (hshape : marker.shape = some (.bytes n)) :
    marker.IsPlain ∧ ∀ input, marker.body input =
      (readExact n input).map fun (_, rest) => (0, rest) := by
  cases marker <;> cases hshape <;>
    exact ⟨⟨by rintro ⟨⟩, by rintro _ ⟨⟩⟩, fun input => by simp [Marker.body, readExact]⟩

theorem body_prefixed (hshape : marker.shape = some (.prefixed width extra)) :
    marker.IsPlain ∧ ∀ input, marker.body input =
      (readBe width input).bind fun (len, rest) =>
        (readExact (len + extra) rest).map fun (_, rest) => (0, rest) := by
  cases marker <;> cases hshape <;>
    exact ⟨⟨by rintro ⟨⟩, by rintro _ ⟨⟩⟩, fun input => by
      simp [Marker.body, Nat.add_comm, Option.map_eq_bind]⟩

theorem body_items (hshape : marker.shape = some (.items n)) :
    marker.IsPlain ∧ ∀ input, marker.body input = some (n, input) := by
  cases marker <;> cases hshape <;>
    exact ⟨⟨by rintro ⟨⟩, by rintro _ ⟨⟩⟩, fun input => by simp [Marker.body, Nat.mul_comm]⟩

theorem body_array (hshape : marker.shape = some (.array width)) :
    marker.IsPlain ∧ ∀ input, marker.body input = readBe width input := by
  cases marker <;> cases hshape
  exact ⟨⟨by rintro ⟨⟩, by rintro _ ⟨⟩⟩, fun input => rfl⟩

theorem eq_map (hshape : marker.shape = some (.map width)) : marker = .map width := by
  cases marker <;> cases hshape
  rfl

end Marker

theorem skipHead_plain {byte : UInt8} {rest tail : Bytes}
    (hplain : (Marker.ofByte byte).IsPlain)
    (hbody : (Marker.ofByte byte).body rest = some (rounds, tail)) :
    skipHead arithmetic (byte :: rest) = .ok (rounds, tail) := by
  have hmarker : readMarker (byte :: rest) = some (Marker.ofByte byte, rest) := rfl
  generalize Marker.ofByte byte = marker at hplain hbody hmarker
  obtain ⟨hreserved, hmap⟩ := hplain
  unfold skipHead
  rw [hmarker]
  split
  next heq => cases heq
  next heq =>
    cases heq
    exact absurd rfl hreserved
  next width found heq =>
    cases heq
    exact absurd rfl (hmap width)
  next marker found _ _ heq =>
    cases heq
    rw [hbody]

theorem skipHead_map {byte : UInt8} {header rest : Bytes}
    (hshape : (Marker.ofByte byte).shape = some (.map header.length)) :
    skipHead arithmetic (byte :: (header ++ rest)) =
      (arithmetic.double header.length (fromBe header)).map (·, rest) := by
  have hmarker : readMarker (byte :: (header ++ rest)) =
      some (.map header.length, header ++ rest) := by
    rw [readMarker_cons, Marker.eq_map hshape]
  rw [skipHead, hmarker]
  simp only [readBe_header]
  cases arithmetic.double header.length (fromBe header) <;> rfl

/-- The loop behind a head has as many rounds as there are values inside. -/
theorem skipHead_fits (h : Starts MapFits input count last) :
    skipHead arithmetic input = .ok (count, last) := by
  cases h with
  | @bytes byte payload rest hshape =>
      obtain ⟨hplain, hbody⟩ := Marker.body_bytes hshape
      refine skipHead_plain hplain ?_
      rw [hbody, readExact_payload]
      rfl
  | @prefixed byte header payload rest extra hshape hlength =>
      obtain ⟨hplain, hbody⟩ := Marker.body_prefixed hshape
      refine skipHead_plain hplain ?_
      simp only [hbody, readBe_header, Option.bind_some, ← hlength, readExact_payload,
        Option.map_some]
  | @items byte count rest hshape =>
      obtain ⟨hplain, hbody⟩ := Marker.body_items hshape
      exact skipHead_plain hplain (hbody _)
  | @array byte header rest hshape =>
      obtain ⟨hplain, hbody⟩ := Marker.body_array hshape
      refine skipHead_plain hplain ?_
      rw [hbody, readBe_header]
  | @map byte header rest hshape hmap =>
      have hdouble : arithmetic.double header.length (fromBe header) =
          .ok (2 * fromBe header) := by
        rw [Nat.mul_comm 2]
        cases arithmetic with
        | wrapping => exact congrArg _ (Nat.mod_eq_of_lt hmap)
        | checked => exact if_pos hmap
      rw [skipHead_map hshape, hdouble]
      rfl

/-- Unless the double of a count does not fit: then there is an overflow, or too few rounds. -/
theorem skipHead_cases (h : Starts (fun _ _ => True) input count last) :
    Starts MapFits input count last ∨
      skipHead .checked input = .error .overflow ∧
        ∃ fewer < count, skipHead .wrapping input = .ok (fewer, last) := by
  cases h with
  | bytes hshape => exact .inl (.bytes hshape)
  | prefixed hshape hlength => exact .inl (.prefixed hshape hlength)
  | items hshape => exact .inl (.items hshape)
  | array hshape => exact .inl (.array hshape)
  | @map byte header rest hshape _ =>
      by_cases hfits : MapFits header.length (fromBe header)
      · exact .inl (.map hshape hfits)
      · refine .inr ⟨?_, fromBe header * 2 % 256 ^ header.length, ?_, skipHead_map hshape⟩
        · have hdouble : Arithmetic.checked.double header.length (fromBe header) =
              .error .overflow := if_neg hfits
          rw [skipHead_map hshape, hdouble]
          rfl
        · rw [Nat.mul_comm 2]
          exact (Nat.mod_lt _ (by positivity)).trans_le (Nat.not_lt.mp hfits)

/-! ## Exactness -/

/-- What can come of skipping so many values out of a row of them: they are skipped and their
maps fit, more than the others are left, or there is an overflow. -/
inductive SkipOutcome (input : Bytes) (rounds pending : Nat) (out : Bytes) :
    Except SkipError Bytes → Prop
  | exact {middle : Bytes} (hskipped : ReadsRow MapFits input rounds middle)
      (hrest : ReadsRow (fun _ _ => True) middle pending out) :
      SkipOutcome input rounds pending out (.ok middle)
  | early {middle : Bytes} {more : Nat} (hmore : pending < more)
      (hrest : ReadsRow (fun _ _ => True) middle more out) :
      SkipOutcome input rounds pending out (.ok middle)
  | overflow : SkipOutcome input rounds pending out (.error .overflow)

namespace SkipOutcome

variable {other : Bytes} {others more : Nat} {result : Except SkipError Bytes}

/-- The same values, behind what was skipped before. -/
theorem lead (h : SkipOutcome input rounds pending out result)
    (hlead : ∀ middle, ReadsRow MapFits input rounds middle →
      ReadsRow MapFits other others middle) :
    SkipOutcome other others pending out result := by
  cases h with
  | exact hskipped hrest => exact .exact (hlead _ hskipped) hrest
  | early hmore hrest => exact .early hmore hrest
  | overflow => exact .overflow

/-- More values are left over already. -/
theorem shorten (h : SkipOutcome input rounds more out result) (hmore : pending < more) :
    SkipOutcome other others pending out result := by
  cases h with
  | exact _ hrest => exact .early hmore hrest
  | early hmost hrest => exact .early (hmore.trans hmost) hrest
  | overflow => exact .overflow

end SkipOutcome

/-- A loop that stops a value too early never catches up. -/
theorem skipTimes_outcome (hshort : ∀ input out, skip input = .ok out → out.length < input.length)
    (hskip : ∀ (input : Bytes) pending, input.length < depth →
      ReadsRow (fun _ _ => True) input (pending + 1) out →
        SkipOutcome input 1 pending out (skip input)) (hdepth : input.length < depth)
    (h : ReadsRow (fun _ _ => True) input (rounds + pending) out) :
    SkipOutcome input rounds pending out (skipTimes skip rounds input) := by
  induction rounds generalizing input pending with
  | zero =>
      rw [Nat.zero_add] at h
      exact .exact (.done input) h
  | succ rounds ih =>
      rw [Nat.add_right_comm] at h
      have hfirst := hskip input (rounds + pending) hdepth h
      rw [skipTimes]
      cases hresult : skip input with
      | error err =>
          rw [hresult] at hfirst
          cases hfirst
          exact .overflow
      | ok middle =>
          have hlt := hshort input middle hresult
          rw [hresult] at hfirst
          cases hfirst with
          | exact hskipped hrest =>
              refine (ih (hlt.trans hdepth) hrest).lead fun last hothers => ?_
              rw [Nat.add_comm]
              exact hskipped.append hothers
          | @early _ more hmore hrest =>
              obtain ⟨left, rfl⟩ : ∃ left, more = rounds + left := ⟨more - rounds, by omega⟩
              exact (ih (hlt.trans hdepth) hrest).shorten (by omega)

theorem skipValue_outcome (h : ReadsRow (fun _ _ => True) input (pending + 1) out)
    (hdepth : input.length < depth) :
    SkipOutcome input 1 pending out (skipValue arithmetic depth input) := by
  induction depth generalizing input pending with
  | zero => omega
  | succ depth ih =>
      have hloop : ∀ (rounds pending : Nat) (input : Bytes), input.length < depth →
          ReadsRow (fun _ _ => True) input (rounds + pending) out →
          SkipOutcome input rounds pending out
            (skipTimes (skipValue arithmetic depth) rounds input) := fun _ _ _ =>
        skipTimes_outcome (fun _ _ => skipValue_length_lt) fun _ _ hlength hreads =>
          ih hreads hlength
      cases h with
      | @round _ last _ count _ hstarts hrest =>
          have hlt := hstarts.length_lt
          rw [skipValue]
          rcases skipHead_cases hstarts with hfits | ⟨hoverflow, fewer, hfewer, hwraps⟩
          · rw [skipHead_fits hfits]
            exact (hloop count pending last (by omega) hrest).lead fun middle hskipped =>
              .round hfits hskipped
          · cases arithmetic with
            | checked =>
                rw [hoverflow]
                exact .overflow
            | wrapping =>
                -- the values that are not counted are left over
                obtain ⟨left, rfl⟩ : ∃ left, count = fewer + left := ⟨count - fewer, by omega⟩
                rw [Nat.add_assoc] at hrest
                rw [hwraps]
                exact (hloop fewer (left + pending) last (by omega) hrest).shorten (by omega)

theorem skipValue_of_fits (h : ReadsRow MapFits input (pending + 1) out)
    (hdepth : input.length < depth) :
    ∃ middle, skipValue arithmetic depth input = .ok middle ∧
      ReadsRow MapFits middle pending out := by
  induction depth generalizing input pending with
  | zero => omega
  | succ depth ih =>
      cases h with
      | @round _ last _ count _ hstarts hrest =>
          have hlt := hstarts.length_lt
          rw [skipValue, skipHead_fits hstarts]
          exact skipTimes_of_step (fun pending input => ReadsRow MapFits input pending out)
            (fun _ _ => skipValue_length_lt) (fun _ _ hlength hreads => ih hreads hlength)
            (by omega) hrest

/-- A well-formed value is skipped to its end exactly if its maps fit. -/
theorem skipValue_eq_rest_iff {value : Bytes} (hvalue : WellFormed value) (rest : Bytes)
    (hdepth : (value ++ rest).length < depth) :
    skipValue arithmetic depth (value ++ rest) = .ok rest ↔ IsMessage MapFits value := by
  constructor
  · intro hskip
    have houtcome := @skipValue_outcome arithmetic (value ++ rest) rest depth 0
      (hvalue.reads rest) hdepth
    rw [hskip] at houtcome
    cases houtcome with
    | exact hskipped _ => exact isMessage_of_reads hskipped
    | early hmore hrest =>
        have hlength := hrest.length_le
        omega
  · intro hfits
    obtain ⟨middle, hskip, hrest⟩ := @skipValue_of_fits arithmetic (value ++ rest) rest depth 0
      (hfits.reads rest) hdepth
    cases hrest
    exact hskip

/-- `skip_value` goes through every input, and it takes exactly one value, without overflow,
if and only if no map in it has a count whose double does not fit: from `2 ^ 15` entries on
behind two bytes of length, from `2 ^ 31` on behind four. -/
theorem skipValue_exact_iff (arithmetic : Arithmetic) :
    (∀ (input : Bytes) depth, input.length < depth →
      skipValue arithmetic depth input ≠ .error .depth ∧
        skipValue arithmetic depth input = skipValue arithmetic (input.length + 1) input) ∧
      ∀ value rest, WellFormed value → ∀ depth, (value ++ rest).length < depth →
        (skipValue arithmetic depth (value ++ rest) = .ok rest ↔ IsMessage MapFits value) :=
  ⟨fun _ _ hdepth => ⟨skipValue_ne_depth hdepth, skipValue_congr hdepth (Nat.lt_succ_self _)⟩,
    fun _ rest hvalue _ hdepth => skipValue_eq_rest_iff hvalue rest hdepth⟩

namespace Reference

/-- A map with one entry, from a number to nothing. -/
theorem isMessage_entry (maps : Nat → Nat → Prop) : IsMessage maps [0x81, 0x05, 0xc0] := by
  have hscalar : ∀ byte : UInt8, (Marker.ofByte byte).shape = some (.bytes 0) →
      IsMessage maps [byte] := fun byte hshape =>
    .mk [] (@Starts.bytes maps byte [] [] hshape) nofun
  refine .mk [[0x05], [0xc0]] (.items rfl) fun value hvalue => ?_
  rcases List.mem_pair.mp hvalue with rfl | rfl
  · exact hscalar _ rfl
  · exact hscalar _ rfl

theorem skips_entry : Skips [0x81, 0x05, 0xc0, 0x07] 1 [0x07] :=
  (skipValue_wrapping_iff (by decide : _ < 5)).mp rfl

theorem skipValue_exact_entry :
    skipValue .checked 5 [0x81, 0x05, 0xc0, 0x07] = .ok [0x07] :=
  ((skipValue_exact_iff .checked).2 [0x81, 0x05, 0xc0] [0x07] (isMessage_entry _) 5
    (by decide)).mpr (isMessage_entry _)

/-- Every well-formed value is skipped to its end. -/
def Exact (arithmetic : Arithmetic) : Prop :=
  ∀ value rest, WellFormed value → ∀ depth, (value ++ rest).length < depth →
    skipValue arithmetic depth (value ++ rest) = .ok rest

/-- A map with `2 ^ 15` entries of nothing: with checks the double overflows, without them the
map is taken to be empty. -/
theorem not_exact_largeMap (arithmetic : Arithmetic) : ¬ Exact arithmetic := by
  intro hexact
  obtain ⟨values, hlength, hvalues⟩ : ∃ values : List Bytes, values.length = 65536 ∧
      ∀ value ∈ values, value = [0xc0] :=
    ⟨List.replicate 65536 [0xc0], List.length_replicate, fun _ => List.eq_of_mem_replicate⟩
  have hmap : WellFormed (0xde :: ([0x80, 0x00] ++ values.flatten)) := by
    refine .mk values ?_ fun value hvalue => ?_
    · rw [hlength]
      exact .map rfl trivial
    · rw [hvalues value hvalue]
      exact .mk [] (@Starts.bytes _ 0xc0 [] [] rfl) nofun
  have hskip := hexact _ [] hmap _ (Nat.lt_succ_self _)
  have hhead : skipHead arithmetic (0xde :: ([0x80, 0x00] ++ values.flatten)) =
      (arithmetic.double 2 32768).map (·, values.flatten) := skipHead_map rfl
  rw [List.append_nil, skipValue, hhead] at hskip
  cases arithmetic with
  | checked => cases hskip
  | wrapping =>
      have hnil : values.flatten = [] := Except.ok.inj hskip
      obtain ⟨value, hvalue⟩ :=
        List.exists_mem_of_length_pos (hlength ▸ (by decide : 0 < 65536))
      have hpart := List.flatten_eq_nil_iff.mp hnil value hvalue
      rw [hvalues value hvalue] at hpart
      cases hpart

theorem skipValue_not_exact : ¬ Exact .checked ∧ ¬ Exact .wrapping :=
  ⟨not_exact_largeMap .checked, not_exact_largeMap .wrapping⟩

end Reference

end MerkleTox.Proto
