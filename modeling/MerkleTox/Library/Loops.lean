import Mathlib.Data.PFun
import Mathlib.Logic.Relation

/-! # Loops

A loop runs its body until the body breaks. Without a bound it is a partial function; with a
bound on the iterations it is total, but may stop before the body breaks. A measure that every
iteration lowers makes the two agree.
-/

namespace MerkleTox.Library.Loops

universe uState uResult

variable {State : Type uState} {Result : Type uResult}

/-- `loop { .. }`: the body breaks with a result or goes on from a new state. -/
noncomputable def forever (body : State → Result ⊕ State) : State →. Result :=
  PFun.fix fun state => Part.some (body state)

/-- At most so many iterations, and then `giveUp`. -/
def atMost (body : State → Result ⊕ State) (giveUp : State → Result) : Nat → State → Result
  | 0, state => giveUp state
  | rounds + 1, state =>
      match body state with
      | .inl result => result
      | .inr state => atMost body giveUp rounds state

/-- Under the invariant every iteration lowers the measure. -/
structure Variant (goesOn : State → State → Prop) (inv : State → Prop) (measure : State → Nat) :
    Prop where
  kept : ∀ {before after}, inv before → goesOn before after → inv after
  decreases : ∀ {before after}, inv before → goesOn before after → measure after < measure before

namespace Variant

variable {goesOn : State → State → Prop} {inv : State → Prop} {measure : State → Nat}

theorem inv_of_reaches (variant : Variant goesOn inv measure) {start state : State}
    (hinv : inv start) (hreaches : Relation.ReflTransGen goesOn start state) : inv state := by
  induction hreaches with
  | refl => exact hinv
  | tail _ hgoes ih => exact variant.kept ih hgoes

/-- No sequence of iterations goes on forever, whatever each one chooses. -/
theorem acc (variant : Variant goesOn inv measure) {state : State} (hinv : inv state) :
    Acc (fun after before => goesOn before after) state := by
  induction hmeasure : measure state using Nat.strong_induction_on generalizing state with
  | _ bound ih =>
      refine ⟨_, fun after hgoes => ?_⟩
      have hless := variant.decreases hinv hgoes
      exact ih (measure after) (hmeasure ▸ hless) (variant.kept hinv hgoes) rfl

/-- The unbounded loop ends, with the result of the bounded one. -/
theorem atMost_mem_forever {body : State → Result ⊕ State} {giveUp : State → Result}
    (variant : Variant (fun before after => body before = .inr after) inv measure)
    (hidle : ∀ state, inv state → measure state = 0 → body state = .inl (giveUp state))
    {rounds : Nat} {state : State} (hinv : inv state) (hrounds : measure state ≤ rounds) :
    atMost body giveUp rounds state ∈ forever body state := by
  induction rounds generalizing state with
  | zero =>
      apply PFun.fix_stop
      rw [Part.mem_some_iff, hidle state hinv (Nat.le_zero.mp hrounds)]
      rfl
  | succ rounds ih =>
      unfold atMost
      cases hbody : body state with
      | inl result =>
          apply PFun.fix_stop
          rw [Part.mem_some_iff, hbody]
      | inr after =>
          have hless := variant.decreases hinv hbody
          have hrest := ih (variant.kept hinv hbody) (by omega)
          refine PFun.mem_fix_iff.mpr (.inr ⟨after, ?_, hrest⟩)
          rw [Part.mem_some_iff, hbody]

end Variant

end MerkleTox.Library.Loops
