import Mathlib.Algebra.BigOperators.Group.List.Basic
import Mathlib.Algebra.GroupWithZero.Nat
import Mathlib.Data.Int.Order.Basic

/-! # Machine integers that wrap

The value a computation comes to where machine integers wrap, with the mark whether an operation
has left its type. A build that checks for overflow stops there.
-/

namespace MerkleTox.Library

variable {index divisor : Nat} {n : Int}

universe uValue uResult

structure Checked (Value : Type uValue) where
  value : Value
  overflowed : Bool
  deriving DecidableEq, Repr

namespace Checked

variable {Value : Type uValue} {Result : Type uResult}

instance : Monad Checked where
  pure value := ⟨value, false⟩
  bind checked f := ⟨(f checked.value).value, checked.overflowed || (f checked.value).overflowed⟩

@[simp]
theorem pure_eq (value : Value) : (pure value : Checked Value) = ⟨value, false⟩ := rfl

section

variable {Value Result : Type uValue} (checked : Checked Value) (f : Value → Checked Result)

@[simp]
theorem value_bind : (checked >>= f).value = (f checked.value).value := rfl

@[simp]
theorem overflowed_bind :
    (checked >>= f).overflowed = (checked.overflowed || (f checked.value).overflowed) := rfl

end

/-- What does not overflow hands over its value. -/
theorem bind_of_fits {Value Result : Type uValue} {checked : Checked Value} {value : Value}
    (h : checked = ⟨value, false⟩) (f : Value → Checked Result) : checked >>= f = f value := by
  subst h
  exact congrArg₂ mk rfl (Bool.false_or _)

instance : LawfulMonad Checked :=
  LawfulMonad.mk' Checked (fun checked => congrArg (mk checked.value) (Bool.or_false _))
    (fun value f => congrArg (mk (f value).value) (Bool.false_or _))
    fun checked f g => congrArg (mk (g (f checked.value).value).value) (Bool.or_assoc _ _ _)

/-- What does not overflow for any element does not for the list. -/
theorem mapM_of_fits {Value Result : Type uValue} {f : Value → Checked Result}
    {g : Value → Result} {list : List Value} (h : ∀ value ∈ list, f value = ⟨g value, false⟩) :
    list.mapM f = ⟨list.map g, false⟩ := by
  induction list with
  | nil => rfl
  | cons value rest ih =>
      rw [List.forall_mem_cons] at h
      rw [List.mapM_cons, bind_of_fits h.1, bind_of_fits (ih h.2), pure_eq, List.map_cons]

section

variable {Value Result : Type uValue} (f : Value → Checked Result) (list : List Value)

theorem value_mapM : (list.mapM f).value = list.map fun value => (f value).value := by
  induction list with
  | nil => rfl
  | cons value rest ih =>
      rw [List.mapM_cons, value_bind, value_bind, ih]
      rfl

/-- A list overflows if one of its elements does. -/
theorem overflowed_mapM :
    (list.mapM f).overflowed = list.any fun value => (f value).overflowed := by
  induction list with
  | nil => rfl
  | cons value rest ih =>
      rw [List.mapM_cons, overflowed_bind, overflowed_bind, ih, pure_eq, Bool.or_false,
        List.any_cons]

end

/-- A loop that keeps an invariant under which its body does not overflow. -/
theorem foldlM_of_fits {State Value : Type uValue} {f : State → Value → Checked State}
    {g : State → Value → State} (inv : State → Prop) {list : List Value}
    (h : ∀ state, inv state → ∀ value ∈ list,
      f state value = ⟨g state value, false⟩ ∧ inv (g state value))
    {state : State} (hinv : inv state) :
    list.foldlM f state = ⟨list.foldl g state, false⟩ ∧ inv (list.foldl g state) := by
  induction list generalizing state with
  | nil => exact ⟨rfl, hinv⟩
  | cons value rest ih =>
      obtain ⟨hfits, hnext⟩ := h state hinv value List.mem_cons_self
      have hrest := ih (fun state hinv other hmem => h state hinv other (List.mem_cons_of_mem _ hmem))
        hnext
      rw [List.foldlM_cons, bind_of_fits hfits]
      exact hrest

/-! ## Operations that every build checks -/

/-- An element of an array. Out of its bounds the program stops, in every build. -/
def get (list : List Value) (index : Nat) (blank : Value) : Checked Value :=
  ⟨list.getD index blank, decide (list.length ≤ index)⟩

/-- Change an element of an array. -/
def update (list : List Value) (index : Nat) (f : Value → Value) : Checked (List Value) :=
  ⟨list.modify index f, decide (list.length ≤ index)⟩

/-- `&list[low..high]`. -/
def slice (list : List Value) (low high : Nat) : Checked (List Value) :=
  ⟨(list.take high).drop low, decide (high < low) || decide (list.length < high)⟩

/-- `n % divisor`; there is no remainder by zero. -/
def remainder (n divisor : Nat) : Checked Nat := ⟨n % divisor, decide (divisor = 0)⟩

variable {list : List Value} {bits : Nat} {numbers : List Nat}

theorem get_eq_getD (h : index < list.length) (blank : Value) :
    get list index blank = ⟨list.getD index blank, false⟩ := by
  rw [get, decide_eq_false (Nat.not_le.mpr h)]

theorem get_of_lt (h : index < list.length) (blank : Value) :
    get list index blank = ⟨list[index], false⟩ := by
  rw [get_eq_getD h, List.getD_eq_getElem?_getD, List.getElem?_eq_getElem h, Option.getD_some]

theorem update_of_lt (h : index < list.length) (f : Value → Value) :
    update list index f = ⟨list.modify index f, false⟩ := by
  rw [update, decide_eq_false (Nat.not_le.mpr h)]

theorem slice_of_le {low high : Nat} (hlow : low ≤ high) (hhigh : high ≤ list.length) :
    slice list low high = ⟨(list.take high).drop low, false⟩ := by
  rw [slice, decide_eq_false (Nat.not_lt.mpr hlow), decide_eq_false (Nat.not_lt.mpr hhigh),
    Bool.or_false]

theorem remainder_of_pos (h : 0 < divisor) (n : Nat) :
    remainder n divisor = ⟨n % divisor, false⟩ := by
  rw [remainder, decide_eq_false (Nat.pos_iff_ne_zero.mp h)]

/-! ## Results of operations -/

/-- The result of an operation on unsigned integers. -/
def unsigned (bits n : Nat) : Checked Nat := ⟨n % 2 ^ bits, decide (2 ^ bits ≤ n)⟩

/-- The range of a signed integer. -/
def FitsSigned (bits : Nat) (n : Int) : Prop := -2 ^ (bits - 1) ≤ n ∧ n < 2 ^ (bits - 1)

instance (bits : Nat) (n : Int) : Decidable (FitsSigned bits n) :=
  inferInstanceAs (Decidable (_ ∧ _))

/-- The result of an operation on signed integers. -/
def signed (bits : Nat) (n : Int) : Checked Int := ⟨n.bmod (2 ^ bits), !decide (FitsSigned bits n)⟩

theorem unsigned_of_lt {bits n : Nat} (h : n < 2 ^ bits) : unsigned bits n = ⟨n, false⟩ := by
  rw [unsigned, Nat.mod_eq_of_lt h, decide_eq_false (Nat.not_le.mpr h)]

theorem bmod_of_fits (hbits : 0 < bits) (h : FitsSigned bits n) :
    n.bmod (2 ^ bits) = n := by
  obtain ⟨hlow, hhigh⟩ := h
  have hpow : (2 : Int) ^ bits = 2 * 2 ^ (bits - 1) := by
    rw [← Int.pow_succ', Nat.sub_add_cancel hbits]
  refine Int.bmod_eq_of_le_mul_two ?_ ?_
  · push_cast
    omega
  · push_cast
    omega

theorem signed_of_fits (hbits : 0 < bits) (h : FitsSigned bits n) :
    signed bits n = ⟨n, false⟩ := by
  rw [signed, bmod_of_fits hbits h, decide_eq_true h]
  rfl

/-! ## Sums -/

def sumUnsigned (bits : Nat) (numbers : List Nat) : Checked Nat :=
  numbers.foldlM (fun sum n => unsigned bits (sum + n)) 0

def sumSigned (bits : Nat) (numbers : List Int) : Checked Int :=
  numbers.foldlM (fun sum n => signed bits (sum + n)) 0

theorem foldlM_unsigned {bits sum : Nat} (h : sum + numbers.sum < 2 ^ bits) :
    numbers.foldlM (fun sum n => unsigned bits (sum + n)) sum = ⟨sum + numbers.sum, false⟩ := by
  induction numbers generalizing sum with
  | nil => rfl
  | cons n rest ih =>
      rw [List.sum_cons, ← Nat.add_assoc] at h ⊢
      rw [List.foldlM_cons, bind_of_fits (unsigned_of_lt (by omega)), ih h]

theorem sumUnsigned_of_lt (h : numbers.sum < 2 ^ bits) :
    sumUnsigned bits numbers = ⟨numbers.sum, false⟩ := by
  rw [sumUnsigned, foldlM_unsigned (by omega), Nat.zero_add]

theorem foldlM_unsigned_overflowed {bits sum : Nat} (hsum : sum < 2 ^ bits)
    (h : 2 ^ bits ≤ sum + numbers.sum) :
    (numbers.foldlM (fun sum n => unsigned bits (sum + n)) sum).overflowed = true := by
  induction numbers generalizing sum with
  | nil =>
      rw [List.sum_nil] at h
      omega
  | cons n rest ih =>
      rw [List.sum_cons, ← Nat.add_assoc] at h
      rw [List.foldlM_cons, overflowed_bind, Bool.or_eq_true]
      by_cases hfits : sum + n < 2 ^ bits
      · right
        rw [unsigned_of_lt hfits]
        exact ih hfits h
      · exact .inl (decide_eq_true (Nat.not_lt.mp hfits))

/-- A sum of unsigned integers that does not fit overflows on the way. -/
theorem sumUnsigned_overflowed (h : 2 ^ bits ≤ numbers.sum) :
    (sumUnsigned bits numbers).overflowed = true :=
  foldlM_unsigned_overflowed (Nat.two_pow_pos bits) (by omega)

theorem sumSigned_singleton (hbits : 0 < bits) (h : FitsSigned bits n) :
    sumSigned bits [n] = ⟨n, false⟩ := by
  have hsingle : sumSigned bits [n] = signed bits (0 + n) >>= fun sum => pure sum := rfl
  rw [hsingle, Int.zero_add, bind_of_fits (signed_of_fits hbits h), pure_eq]

end Checked

end MerkleTox.Library
