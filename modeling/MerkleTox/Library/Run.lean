import Mathlib.Data.List.Basic

/-! # Runs of a deterministic machine

A machine is a step function from a state and a command to the next state. A
run applies a list of commands from left to right. Conditions on a run are
stated on the state *before* each command, so that a guard of the machine and
an assumption on its environment have the same shape.
-/

namespace MerkleTox.Library

universe uState uCommand

variable {State : Type uState} {Command : Type uCommand}

/-- The state reached by executing the commands from left to right. -/
def runFrom (step : State → Command → State) (state : State) (commands : List Command) : State :=
  commands.foldl step state

/-- Every command of the run meets the condition in the state it is issued in. -/
def RunMeets (step : State → Command → State) (ok : State → Command → Prop) :
    State → List Command → Prop
  | _, [] => True
  | state, command :: rest => ok state command ∧ RunMeets step ok (step state command) rest

variable {step : State → Command → State} {ok : State → Command → Prop}

@[simp]
theorem runFrom_nil (state : State) : runFrom step state [] = state := rfl

@[simp]
theorem runFrom_cons (state : State) (command : Command) (rest : List Command) :
    runFrom step state (command :: rest) = runFrom step (step state command) rest := rfl

theorem runFrom_append (state : State) (first second : List Command) :
    runFrom step state (first ++ second) = runFrom step (runFrom step state first) second :=
  List.foldl_append

variable {state : State} {commands : List Command}

theorem runMeets_append {first second : List Command} :
    RunMeets step ok state (first ++ second) ↔
      RunMeets step ok state first ∧ RunMeets step ok (runFrom step state first) second := by
  induction first generalizing state with
  | nil => exact (and_iff_right trivial).symm
  | cons command rest ih => exact (and_congr_right fun _ => ih).trans and_assoc.symm

variable {ok' : State → Command → Prop} {inv : State → Prop}

/-- Conditions that agree on every step agree on runs. -/
theorem runMeets_congr (hok : ∀ state command, ok state command ↔ ok' state command) :
    RunMeets step ok state commands ↔ RunMeets step ok' state commands := by
  induction commands generalizing state with
  | nil => exact Iff.rfl
  | cons command rest ih => exact and_congr (hok state command) ih

/-- An invariant of every admissible step holds at the end of every admissible
run; the runs being arbitrary, it holds in every state such a run reaches. -/
theorem RunMeets.invariant (hmeets : RunMeets step ok state commands) (inv : State → Prop)
    (hstep : ∀ state command, inv state → ok state command → inv (step state command))
    (hinit : inv state) : inv (runFrom step state commands) := by
  induction commands generalizing state with
  | nil => exact hinit
  | cons command rest ih => exact ih hmeets.2 (hstep state command hinit hmeets.1)

/-- Along an admissible run every command meets what an invariant and its own condition
entail. -/
theorem RunMeets.imp_of_invariant (hmeets : RunMeets step ok state commands) (inv : State → Prop)
    (hstep : ∀ state command, inv state → ok state command →
      inv (step state command) ∧ ok' state command) (hinit : inv state) :
    RunMeets step ok' state commands := by
  induction commands generalizing state with
  | nil => trivial
  | cons command rest ih =>
      obtain ⟨hnext, hok⟩ := hstep state command hinit hmeets.1
      exact ⟨hok, ih hmeets.2 hnext⟩

/-- An invariant that every command of the run keeps holds at its end. -/
theorem runFrom_invariant_of_mem
    (hstep : ∀ state, ∀ command ∈ commands, inv state → inv (step state command))
    (hinit : inv state) : inv (runFrom step state commands) := by
  induction commands generalizing state with
  | nil => exact hinit
  | cons command rest ih =>
      refine ih (fun state other hmem => hstep state other (List.mem_cons_of_mem _ hmem)) ?_
      exact hstep state command List.mem_cons_self hinit

/-- The unconditional form of `RunMeets.invariant`. -/
theorem runFrom_invariant (hstep : ∀ state command, inv state → inv (step state command))
    (commands : List Command) (hinit : inv state) : inv (runFrom step state commands) :=
  runFrom_invariant_of_mem (fun state command _ => hstep state command) hinit

end MerkleTox.Library
