import MerkleTox.Core.World

/-! # The handling of a node

What a call of the world that handles a node does: it evaluates the node, and when the node is
accepted it tries the opaque nodes and the speculative ones again, in passes that end with the
first one that verifies nothing. What holds of each step of the handling holds of the call.
-/

namespace MerkleTox.Core

namespace Engine

/-- The effects of an evaluation; a failure loses them. -/
def evaluationEffects (result : Except MerkleToxError Verdict) : List Effect :=
  match result with
  | .ok verdict => verdict.effects
  | .error _ => []

end Engine

/-- The effects of a call that succeeds. -/
def returnedEffects (result : Except MerkleToxError (List Effect)) : List Effect :=
  match result with
  | .ok effects => effects
  | .error _ => []

variable [Primitives]

/-- The steps that the handling of a node consists of: only nodes that are not verified are
evaluated, and what an evaluation did is forgotten only if it verified nothing. -/
inductive Handling (nowMs : Int) : World → List Effect → World → Prop
  | refl (world : World) : Handling nowMs world [] world
  | evaluate {before middle : World} {effects : List Effect} (conversationId : ConversationId)
      (node : MerkleNode) (hhandling : Handling nowMs before effects middle)
      (hfresh : middle.overlay.isVerified (hash node) = false) :
      Handling nowMs before
        (effects ++ Engine.evaluationEffects (middle.evaluate conversationId node nowMs).1)
        (middle.evaluate conversationId node nowMs).2
  | forget {before middle : World} {effects : List Effect} (conversationId : ConversationId)
      (node : MerkleNode) (hhandling : Handling nowMs before effects middle)
      (hfresh : middle.overlay.isVerified (hash node) = false)
      (hnothing : World.verifiedWrites (Engine.evaluationEffects
        (middle.evaluate conversationId node nowMs).1) = []) :
      Handling nowMs before effects (middle.evaluate conversationId node nowMs).2
  | report {before after : World} {effects : List Effect}
      (hhandling : Handling nowMs before effects after) (event : NodeEvent) :
      Handling nowMs before (effects ++ [.emitEvent event]) after
  | note {before middle : World} {effects written : List Effect}
      (hhandling : Handling nowMs before effects middle) (hwritten : written ⊆ effects) :
      Handling nowMs before effects (middle.noteVerified written)
  | hold {before middle : World} {effects : List Effect} (conversationId : ConversationId)
      {nodeHash : NodeHash} {wire : WireNode} (hhandling : Handling nowMs before effects middle)
      (hwire : middle.overlay.getWireNode nodeHash = some wire) :
      Handling nowMs before (effects ++ [.deleteWireNode conversationId nodeHash])
        (middle.holdWire conversationId nodeHash wire)
  | drop {before middle : World} {effects : List Effect} (nodeHash : NodeHash)
      (hhandling : Handling nowMs before effects middle) :
      Handling nowMs before effects (middle.dropWire nodeHash)

namespace Handling

variable {nowMs : Int} {before middle after : World} {first second effects : List Effect}

theorem trans (hfirst : Handling nowMs before first middle)
    (hsecond : Handling nowMs middle second after) :
    Handling nowMs before (first ++ second) after := by
  induction hsecond with
  | refl =>
      rw [List.append_nil]
      exact hfirst
  | evaluate conversationId node _ hfresh ih =>
      rw [← List.append_assoc]
      exact .evaluate conversationId node ih hfresh
  | forget conversationId node _ hfresh hnothing ih =>
      exact .forget conversationId node ih hfresh hnothing
  | report _ event ih =>
      rw [← List.append_assoc]
      exact .report ih event
  | note _ hwritten ih => exact .note ih (List.subset_append_of_subset_right _ hwritten)
  | hold conversationId _ hwire ih =>
      rw [← List.append_assoc]
      exact .hold conversationId ih hwire
  | drop nodeHash _ ih => exact .drop nodeHash ih

theorem emitted_eq (hhandling : Handling nowMs before effects after) :
    after.emitted = before.emitted := by
  induction hhandling with
  | refl => rfl
  | evaluate _ _ _ _ ih | forget _ _ _ _ _ ih | report _ _ ih | note _ _ ih | hold _ _ _ ih
  | drop _ _ ih => exact ih

end Handling

/-- The handling of a call of the world, which loses its effects if it fails. -/
def World.Handled (outcome : Except MerkleToxError (List Effect) × World) (nowMs : Int)
    (before : World) : Prop :=
  match outcome with
  | (.ok effects, after) => Handling nowMs before effects after
  | (.error _, after) => Handling nowMs before [] after

namespace World

omit [Primitives] in
theorem verifiedWrites_append (first second : List Effect) :
    verifiedWrites (first ++ second) = verifiedWrites first ++ verifiedWrites second :=
  List.filterMap_append

variable {effects : List Effect} {after : World} {node : MerkleNode}

section Handled

variable {nowMs : Int} {before : World} {outcome : Except MerkleToxError (List Effect) × World}

theorem Handled.ok (hhandled : Handled outcome nowMs before)
    (heq : outcome = (.ok effects, after)) : Handling nowMs before effects after := by
  rw [heq] at hhandled
  exact hhandled

theorem Handled.error {error : MerkleToxError} (hhandled : Handled outcome nowMs before)
    (heq : outcome = (.error error, after)) :
    Handling nowMs before [] after := by
  rw [heq] at hhandled
  exact hhandled

theorem Handled.handling (hhandled : Handled outcome nowMs before) :
    Handling nowMs before (returnedEffects outcome.1) outcome.2 := by
  obtain ⟨effects | error, after⟩ := outcome
  · exact hhandled
  · exact hhandled

end Handled

variable (world : World) (conversationId : ConversationId) (nowMs : Int)

theorem evaluate_kept (hfresh : world.overlay.isVerified (hash node) = false) :
    Handling nowMs world
      (Engine.evaluationEffects (world.evaluate conversationId node nowMs).1)
      (world.evaluate conversationId node nowMs).2 :=
  .evaluate conversationId node (.refl world) hfresh

theorem processNode_kept (node : MerkleNode) :
    Handled (world.processNode conversationId node nowMs) nowMs world := by
  unfold processNode
  split
  · exact Handling.refl world
  next hfresh =>
    have hkept := world.evaluate_kept conversationId nowMs (Bool.eq_false_iff.mpr hfresh)
    split
    next heq =>
      rw [heq] at hkept
      exact hkept
    next heq =>
      rw [heq] at hkept
      exact hkept.report _

/-- The effects may be forgotten if they verify nothing. -/
theorem processNode_idle {after : World}
    (heq : world.processNode conversationId node nowMs = (.ok effects, after))
    (hnothing : verifiedWrites effects = []) : Handling nowMs world [] after := by
  unfold processNode at heq
  split at heq
  next =>
    cases heq
    exact .refl _
  next hfresh =>
    have hlost : verifiedWrites (Engine.evaluationEffects
        (world.evaluate conversationId node nowMs).1) = [] →
        Handling nowMs world [] (world.evaluate conversationId node nowMs).2 :=
      .forget conversationId node (.refl world) (Bool.eq_false_iff.mpr hfresh)
    split at heq
    next => cases heq
    next heq' =>
      rw [heq'] at hlost
      cases heq
      rw [verifiedWrites_append] at hnothing
      exact hlost (List.append_eq_nil_iff.mp hnothing).1

theorem reverifyPass_kept (nodes : List MerkleNode) :
    Handling nowMs world (world.reverifyPass conversationId nowMs nodes).2.1
      (world.reverifyPass conversationId nowMs nodes).2.2 := by
  induction nodes generalizing world with
  | nil => exact .refl world
  | cons node rest ih =>
      have hprocess := world.processNode_kept conversationId nowMs node
      unfold reverifyPass
      split
      · exact ih world
      · split
        next heq => exact (hprocess.error heq).trans (ih _)
        next effects processed heq =>
          split
          next hnothing =>
            have hidle := world.processNode_idle conversationId nowMs heq
              (List.isEmpty_iff.mp hnothing)
            exact hidle.trans (ih _)
          next =>
            have hnoted : Handling nowMs world effects (processed.noteVerified effects) :=
              .note (hprocess.ok heq) (List.Subset.refl effects)
            exact hnoted.trans (ih _)

theorem reverifySpeculative_kept (fuel : Nat) :
    Handling nowMs world (world.reverifySpeculative conversationId nowMs fuel).1
      (world.reverifySpeculative conversationId nowMs fuel).2 := by
  induction fuel generalizing world with
  | zero => exact .refl world
  | succ fuel ih =>
      have hpass := world.reverifyPass_kept conversationId nowMs world.overlay.getSpeculativeNodes
      unfold reverifySpeculative
      split
      next heq =>
        rw [heq] at hpass
        exact hpass
      next heq =>
        rw [heq] at hpass
        exact hpass.trans (ih _)

variable [WireCodec]

theorem opaquePass_kept (em : Established) (hashes : List NodeHash) :
    Handling nowMs world (world.opaquePass conversationId nowMs em hashes).2.1
      (world.opaquePass conversationId nowMs em hashes).2.2 := by
  induction hashes generalizing world with
  | nil => exact .refl world
  | cons nodeHash rest ih =>
      unfold opaquePass
      simp only
      split
      · exact ih world
      next wire hwire =>
        split
        · exact ih world
        next node _ =>
          have hheld : Handling nowMs world [.deleteWireNode conversationId nodeHash]
              (world.holdWire conversationId nodeHash wire) :=
            .hold conversationId (.refl world) hwire
          have hprocess := processNode_kept (world.holdWire conversationId nodeHash wire)
            conversationId nowMs node
          split
          next heq => exact (Handling.drop nodeHash (hheld.trans (hprocess.error heq))).trans (ih _)
          next heq => exact (Handling.drop nodeHash (hheld.trans (hprocess.ok heq))).trans (ih _)

theorem reverifyOpaque_kept (fuel : Nat) :
    Handling nowMs world (world.reverifyOpaque conversationId nowMs fuel).1
      (world.reverifyOpaque conversationId nowMs fuel).2 := by
  induction fuel generalizing world with
  | zero => exact .refl world
  | succ fuel ih =>
      unfold reverifyOpaque
      split
      · exact .refl world
      next em _ =>
        have hpass := world.opaquePass_kept conversationId nowMs em
          (world.overlay.getOpaqueNodeHashes conversationId)
        split
        next heq =>
          rw [heq] at hpass
          exact hpass
        next heq =>
          rw [heq] at hpass
          exact hpass.trans (ih _)

theorem handleNode_kept (node : MerkleNode) (fuel : Nat) :
    Handled (world.handleNode conversationId node nowMs fuel) nowMs
      (world.withEngine world.engine.clearPending) := by
  unfold handleNode
  simp only
  split
  · exact Handling.refl _
  next hknown =>
    rw [Bool.or_eq_true, not_or, Bool.not_eq_true] at hknown
    have hkept := (world.withEngine world.engine.clearPending).evaluate_kept conversationId
      nowMs hknown.1
    split
    next heq =>
      rw [heq] at hkept
      exact hkept
    next verdict evaluated heq =>
      rw [heq] at hkept
      refine Handling.report ?_ _
      refine hkept.trans ?_
      split
      · exact (evaluated.reverifyOpaque_kept conversationId nowMs fuel).trans
          (reverifySpeculative_kept _ conversationId nowMs fuel)
      · exact .refl evaluated

end World

end MerkleTox.Core
