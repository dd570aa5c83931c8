import MerkleTox.Core.Traces

/-! # Passages of the world

A call of the world as a list of the evaluations and the calls of the engine that it is made
of, with the effects that it keeps. A run is a list of passages, each of which ends with the
effects being applied to the store.
-/

namespace MerkleTox.Core

open Library Proto Relation

/-- The time that a command is given; a wire node arrives without one. -/
def Command.time : Command → Option Int
  | .handleNode _ _ nowMs _ | .authorNode _ _ _ nowMs | .rotateConversationKey _ nowMs
  | .senderRekey _ nowMs => some nowMs
  | .storeWire .. => none

section Passages

variable [Primitives]

inductive Passage (nowMs : Int) : World → List Effect → World → Prop
  | refl (world : World) : Passage nowMs world [] world
  | evaluate {before middle : World} {effects : List Effect} (conversationId : ConversationId)
      (node : MerkleNode) (hpassage : Passage nowMs before effects middle) :
      Passage nowMs before
        (effects ++ Engine.evaluationEffects (middle.evaluate conversationId node nowMs).1)
        (middle.evaluate conversationId node nowMs).2
  | forget {before middle : World} {effects : List Effect} (conversationId : ConversationId)
      (node : MerkleNode) (hpassage : Passage nowMs before effects middle) :
      Passage nowMs before effects (middle.evaluate conversationId node nowMs).2
  | call {before middle : World} {effects kept : List Effect} {engine : Engine}
      (hpassage : Passage nowMs before effects middle)
      (htrace : Trace middle.store nowMs .calls middle.engine kept engine) :
      Passage nowMs before (effects ++ kept) (middle.withEngine engine)
  | note {before middle : World} {effects written : List Effect}
      (hpassage : Passage nowMs before effects middle) (hwritten : written ⊆ effects) :
      Passage nowMs before effects (middle.noteVerified written)
  | hold {before middle : World} {effects : List Effect} (conversationId : ConversationId)
      {nodeHash : NodeHash} {wire : WireNode} (hpassage : Passage nowMs before effects middle)
      (hwire : middle.overlay.getWireNode nodeHash = some wire) :
      Passage nowMs before (effects ++ [.deleteWireNode conversationId nodeHash])
        (middle.holdWire conversationId nodeHash wire)
  | drop {before middle : World} {effects : List Effect} (nodeHash : NodeHash)
      (hpassage : Passage nowMs before effects middle) :
      Passage nowMs before effects (middle.dropWire nodeHash)

namespace Passage

variable {nowMs : Int} {before middle after : World} {first second effects : List Effect}

theorem trans (hfirst : Passage nowMs before first middle)
    (hsecond : Passage nowMs middle second after) :
    Passage nowMs before (first ++ second) after := by
  induction hsecond with
  | refl =>
      rw [List.append_nil]
      exact hfirst
  | evaluate conversationId node _ ih =>
      rw [← List.append_assoc]
      exact .evaluate conversationId node ih
  | forget conversationId node _ ih => exact .forget conversationId node ih
  | call _ htrace ih =>
      rw [← List.append_assoc]
      exact .call ih htrace
  | note _ hwritten ih => exact .note ih (List.subset_append_of_subset_right _ hwritten)
  | hold conversationId _ hwire ih =>
      rw [← List.append_assoc]
      exact .hold conversationId ih hwire
  | drop nodeHash _ ih => exact .drop nodeHash ih

theorem nil_trans (hfirst : Passage nowMs before [] middle)
    (hsecond : Passage nowMs middle second after) : Passage nowMs before second after :=
  hfirst.trans hsecond

/-- A call of the engine that evaluates no node. -/
theorem of_trace {world : World} {engine : Engine}
    (htrace : Trace world.store nowMs .calls world.engine effects engine) :
    Passage nowMs world effects (world.withEngine engine) :=
  .call (.refl world) htrace

theorem clear (world : World) :
    Passage nowMs world [] (world.withEngine world.engine.clearPending) :=
  .of_trace (.clear (.refl world.engine))

/-- An event at the end. -/
theorem report (hpassage : Passage nowMs before effects after) (event : NodeEvent) :
    Passage nowMs before (effects ++ [.emitEvent event]) after :=
  .call hpassage (.quiet rfl fun effect hmem => by
    rw [List.mem_singleton.mp hmem]
    rfl)

theorem evaluations_prefix (hpassage : Passage nowMs before effects after) :
    before.evaluations <+: after.evaluations := by
  induction hpassage with
  | refl => exact List.prefix_rfl
  | evaluate _ _ _ ih | forget _ _ _ ih => exact ih.trans (List.prefix_append _ _)
  | call _ _ ih | note _ _ ih | hold _ _ _ ih | drop _ _ ih => exact ih

end Passage

theorem Handling.passage {nowMs : Int} {before after : World} {effects : List Effect}
    (hhandling : Handling nowMs before effects after) :
    Passage nowMs before effects after := by
  induction hhandling with
  | refl => exact .refl _
  | evaluate conversationId node _ _ ih => exact .evaluate conversationId node ih
  | forget conversationId node _ _ _ ih => exact .forget conversationId node ih
  | report _ event ih => exact ih.report event
  | note _ hwritten ih => exact .note ih hwritten
  | hold conversationId _ hwire ih => exact .hold conversationId ih hwire
  | drop nodeHash _ ih => exact .drop nodeHash ih

/-! ## The passages of the commands -/

/-- The passage of a call of the world, which loses its effects if it fails. -/
def World.Passes (outcome : Except MerkleToxError (List Effect) × World) (nowMs : Int)
    (before : World) : Prop :=
  match outcome with
  | (.ok effects, after) => Passage nowMs before effects after
  | (.error _, after) => Passage nowMs before [] after

namespace World

omit [Primitives] in
theorem verifiedWrites_private {effects : List Effect}
    (hprivate : ∀ effect ∈ effects, effect.isPrivate = true) : verifiedWrites effects = [] := by
  refine List.filterMap_eq_nil_iff.mpr fun effect hmem => ?_
  split
  next => cases hprivate _ hmem
  next => rfl

variable (world : World)

theorem Passes.of_handled {outcome : Except MerkleToxError (List Effect) × World} {nowMs : Int}
    (hhandled : Handled outcome nowMs (world.withEngine world.engine.clearPending)) :
    Passes outcome nowMs world := by
  obtain ⟨effects | error, after⟩ := outcome
  · exact (Passage.clear world).nil_trans hhandled.passage
  · exact (Passage.clear world).nil_trans hhandled.passage

/-- A call that touches the engine only. -/
theorem call_passes {nowMs : Int} {outcome : Outcome}
    (htraces : outcome.Traces world.store nowMs .calls world.engine) :
    Passes (outcome.1, world.withEngine outcome.2) nowMs world := by
  obtain ⟨effects | error, engine⟩ := outcome
  · exact .of_trace htraces
  · exact .of_trace htraces

variable [WireCodec] in
/-- A command with a time is a passage and the application of its effects. -/
theorem step_passes {command : Command} {nowMs : Int} (htime : command.time = some nowMs) :
    ∃ outcome : Except MerkleToxError (List Effect) × World,
      Passes outcome nowMs world ∧ world.step command = outcome.2.finish outcome.1 := by
  cases command with
  | handleNode conversationId node time fuel =>
      cases htime
      exact ⟨_, Passes.of_handled world (world.handleNode_kept conversationId nowMs node fuel), rfl⟩
  | authorNode conversationId content metadata time =>
      cases htime
      exact ⟨_, world.call_passes
          (Engine.authorNode_trace _ _ _ _ content metadata fun _ => trivial), rfl⟩
  | rotateConversationKey conversationId time =>
      cases htime
      have hpasses := world.call_passes
        (world.engine.rotateConversationKey_trace world.store conversationId nowMs false)
      refine ⟨_, hpasses, ?_⟩
      rw [step, call]
  | senderRekey conversationId time =>
      cases htime
      exact ⟨_, world.call_passes (Engine.senderRekey_trace _ _ _ _), rfl⟩
  | storeWire => cases htime

end World

end Passages

end MerkleTox.Core
