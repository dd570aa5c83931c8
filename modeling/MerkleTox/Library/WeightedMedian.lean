import Mathlib.Algebra.Order.BigOperators.Group.List
import Mathlib.Algebra.Order.Ring.Nat

/-! # Weighted medians

Samples with weights, in the order of their values. The middle of the weight lies in one sample
or between two; whatever more than half of the weight agrees on holds of both.
-/

namespace MerkleTox.Library.Samples

universe uValue

variable {Value : Type uValue}

def weight (samples : List (Value × Nat)) : Nat := (samples.map Prod.snd).sum

/-- The weight of the samples whose value passes a test. -/
def weightWhere (test : Value → Prop) [DecidablePred test] (samples : List (Value × Nat)) : Nat :=
  weight (samples.filter fun sample => test sample.1)

/-- More than half of the weight passes the test. -/
def Majority (test : Value → Prop) [DecidablePred test] (samples : List (Value × Nat)) : Prop :=
  weight samples < 2 * weightWhere test samples

/-- The values on both sides of the middle of the weight. -/
inductive Middle (samples : List (Value × Nat)) : Value → Value → Prop
  | within {front back : List (Value × Nat)} {sample : Value × Nat}
      (hsplit : samples = front ++ sample :: back) (hfront : 2 * weight front < weight samples)
      (hback : 2 * weight back < weight samples) : Middle samples sample.1 sample.1
  | between {front back : List (Value × Nat)} {lower upper : Value × Nat}
      (hsplit : samples = front ++ lower :: upper :: back)
      (hhalf : 2 * (weight front + lower.2) = weight samples) :
      Middle samples lower.1 upper.1

variable {samples front back : List (Value × Nat)} {sample : Value × Nat}
variable {test : Value → Prop} [DecidablePred test]

@[simp]
theorem weight_nil : weight ([] : List (Value × Nat)) = 0 := rfl

@[simp]
theorem weight_cons : weight (sample :: samples) = sample.2 + weight samples := by
  simp [weight]

@[simp]
theorem weight_append : weight (front ++ back) = weight front + weight back := by
  simp [weight]

@[simp]
theorem weightWhere_append :
    weightWhere test (front ++ back) = weightWhere test front + weightWhere test back := by
  simp [weightWhere]

theorem weightWhere_le : weightWhere test samples ≤ weight samples :=
  List.Sublist.sum_le_sum (List.filter_sublist.map Prod.snd) fun _ _ => Nat.zero_le _

theorem weightWhere_eq_weight (h : ∀ sample ∈ samples, test sample.1) :
    weightWhere test samples = weight samples := by
  rw [weightWhere, List.filter_eq_self.mpr fun sample hmem => decide_eq_true (h sample hmem)]

theorem weightWhere_eq_zero (h : ∀ sample ∈ samples, ¬ test sample.1) :
    weightWhere test samples = 0 := by
  rw [weightWhere, List.filter_eq_nil_iff.mpr fun sample hmem =>
    (decide_eq_true_iff (p := test sample.1)).not.mpr (h sample hmem), weight_nil]

theorem Majority.mono {other : Value → Prop} [DecidablePred other]
    (h : Majority test samples) (himp : ∀ value, test value → other value) :
    Majority other samples := by
  have hle : weightWhere test samples ≤ weightWhere other samples := by
    refine List.Sublist.sum_le_sum (List.Sublist.map _ ?_) fun _ _ => Nat.zero_le _
    exact List.monotone_filter_right samples fun sample hpass =>
      decide_eq_true (himp _ (of_decide_eq_true hpass))
  exact Nat.lt_of_lt_of_le h (Nat.mul_le_mul_left 2 hle)

/-- A majority does not fit into one half of the weight. -/
theorem Majority.exists_mem_right (h : Majority test (front ++ back))
    (hhalf : 2 * weight front ≤ weight (front ++ back)) : ∃ sample ∈ back, test sample.1 := by
  by_contra! hnone
  have hfront : weightWhere test front ≤ weight front := weightWhere_le
  rw [Majority, weightWhere_append, weightWhere_eq_zero hnone] at h
  omega

theorem Majority.exists_mem_left (h : Majority test (front ++ back))
    (hhalf : 2 * weight back ≤ weight (front ++ back)) : ∃ sample ∈ front, test sample.1 := by
  by_contra! hnone
  have hback : weightWhere test back ≤ weight back := weightWhere_le
  rw [Majority, weightWhere_append, weightWhere_eq_zero hnone] at h
  omega

section Order

variable [LinearOrder Value] {lo hi lower upper : Value}

/-- The samples are in the order of their values. -/
def Sorted (samples : List (Value × Nat)) : Prop :=
  samples.Pairwise fun left right => left.1 ≤ right.1

theorem Sorted.le_of_mem_cons (hsorted : Sorted (front ++ sample :: back)) {other : Value × Nat}
    (hmem : other ∈ sample :: back) : sample.1 ≤ other.1 := by
  rcases List.mem_cons.mp hmem with rfl | hback
  · exact le_rfl
  · exact (List.pairwise_cons.mp (List.pairwise_append.mp hsorted).2.1).1 other hback

theorem Sorted.le_of_mem_concat (hsorted : Sorted (front ++ sample :: back))
    {other : Value × Nat} (hmem : other ∈ front ++ [sample]) : other.1 ≤ sample.1 := by
  rcases List.mem_append.mp hmem with hfront | hlast
  · exact (List.pairwise_append.mp hsorted).2.2 other hfront sample List.mem_cons_self
  · rw [List.mem_singleton.mp hlast]

/-- A sample with at most half of the weight in front of it is not above a majority. -/
theorem Majority.le_right (h : Majority (· ≤ hi) samples) (hsorted : Sorted samples)
    (hsplit : samples = front ++ sample :: back) (hhalf : 2 * weight front ≤ weight samples) :
    sample.1 ≤ hi := by
  subst hsplit
  obtain ⟨other, hmem, hother⟩ := h.exists_mem_right hhalf
  exact (hsorted.le_of_mem_cons hmem).trans hother

/-- A sample with at most half of the weight behind it is not below a majority. -/
theorem Majority.le_left (h : Majority (lo ≤ ·) samples) (hsorted : Sorted samples)
    (hsplit : samples = front ++ sample :: back) (hhalf : 2 * weight back ≤ weight samples) :
    lo ≤ sample.1 := by
  have hconcat : samples = (front ++ [sample]) ++ back := by
    rw [hsplit, List.append_assoc, List.singleton_append]
  obtain ⟨other, hmem, hother⟩ := (hconcat ▸ h).exists_mem_left (hconcat ▸ hhalf)
  exact hother.trans ((hsplit ▸ hsorted).le_of_mem_concat hmem)

section

variable (h : Middle samples lower upper) (hsorted : Sorted samples)
include h hsorted

theorem Middle.le :
    lower ≤ upper := by
  cases h with
  | within => exact le_rfl
  | between hsplit =>
      exact (hsplit ▸ hsorted).le_of_mem_cons (List.mem_cons_of_mem _ List.mem_cons_self)

/-- What more than half of the weight lies above is below both middle values. -/
theorem Middle.lo_le (hmajority : Majority (lo ≤ ·) samples) : lo ≤ lower := by
  cases h with
  | within hsplit _ hback => exact hmajority.le_left hsorted hsplit hback.le
  | between hsplit hhalf =>
      refine hmajority.le_left hsorted hsplit ?_
      have htotal := congrArg weight hsplit
      simp only [weight_append, weight_cons] at htotal ⊢
      omega

theorem Middle.le_hi (hmajority : Majority (· ≤ hi) samples) : upper ≤ hi := by
  cases h with
  | within hsplit hfront _ => exact hmajority.le_right hsorted hsplit hfront.le
  | @between front back lower upper hsplit hhalf =>
      have hconcat : samples = (front ++ [lower]) ++ upper :: back := by
        rw [hsplit, List.append_assoc, List.singleton_append]
      refine hmajority.le_right hsorted hconcat ?_
      rw [weight_append, weight_cons, weight_nil, Nat.add_zero]
      exact hhalf.le

end

/-- Between two samples, the lower one is above a bound only if a majority is. -/
theorem majority_of_between {left right : Value × Nat} (hsorted : Sorted samples)
    (hsplit : samples = front ++ left :: right :: back) (hpos : 0 < left.2)
    (hhalf : 2 * (weight front + left.2) = weight samples) (hlo : lo ≤ left.1) :
    Majority (lo ≤ ·) samples := by
  subst hsplit
  have habove : weightWhere (lo ≤ ·) (left :: right :: back) = weight (left :: right :: back) :=
    weightWhere_eq_weight fun other hmem => hlo.trans (hsorted.le_of_mem_cons hmem)
  rw [Majority, weightWhere_append, habove]
  rw [weight_append] at hhalf ⊢
  simp only [weight_cons] at hhalf ⊢
  omega

end Order

end MerkleTox.Library.Samples
