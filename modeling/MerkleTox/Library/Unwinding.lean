import MerkleTox.Library.Run

/-! # Unwinding

A view of the states of a machine, and commands that are hidden from it. If a hidden command
leaves the view as it is, and every command takes states of one view to states of one view, then
the view at the end of a run depends on the visible commands of the run only.
-/

namespace MerkleTox.Library

universe uState uCommand uView

/-- The conditions on single steps; only commands that are `allowed` have to be silent. -/
structure Unwinding {State : Type uState} {Command : Type uCommand} {View : Type uView}
    (step : State → Command → State) (view : State → View) (visible : Command → Bool)
    (allowed : Command → Prop) : Prop where
  silent : ∀ state command, visible command = false → allowed command →
    view (step state command) = view state
  respects : ∀ state state' command, view state = view state' →
    view (step state command) = view (step state' command)

namespace Unwinding

variable {State : Type uState} {Command : Type uCommand} {View : Type uView}
variable {step : State → Command → State} {view : State → View} {visible : Command → Bool}
variable {allowed : Command → Prop}

/-- The hidden commands of a run can be left out. -/
theorem view_runFrom_filter (hunwinding : Unwinding step view visible allowed)
    {state state' : State} (hview : view state = view state') {commands : List Command}
    (hallowed : ∀ command ∈ commands, visible command = false → allowed command) :
    view (runFrom step state commands) = view (runFrom step state' (commands.filter visible)) := by
  induction commands generalizing state state' with
  | nil => exact hview
  | cons command rest ih =>
      have hrest : ∀ other ∈ rest, visible other = false → allowed other :=
        fun other hother => hallowed other (List.mem_cons_of_mem _ hother)
      cases hvisible : visible command with
      | true =>
          rw [List.filter_cons_of_pos hvisible]
          exact ih (hunwinding.respects _ _ command hview) hrest
      | false =>
          have hsilent : view (step state command) = view state :=
            hunwinding.silent state command hvisible
              (hallowed command List.mem_cons_self hvisible)
          rw [List.filter_cons_of_neg (by simp [hvisible])]
          exact ih (hsilent.trans hview) hrest

end Unwinding

end MerkleTox.Library
