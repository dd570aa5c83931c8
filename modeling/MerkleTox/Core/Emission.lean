import MerkleTox.Core.Writes

/-! # What a run emits

The verified writes among the effects that the calls of a run return, each with the
reason for it.
-/

namespace MerkleTox.Core

open Library Proto Relation

section Runs

variable [Primitives] {world world' : World}

/-- Why a node was written as verified: it was authored here, or it was evaluated
and found verified. Either way it took effect. -/
def World.Written (world : World) (conversationId : ConversationId) (node : MerkleNode) : Prop :=
  Applied world.engine.identityManager conversationId node ∧
    ((conversationId, node) ∈ world.engine.authored ∨
      ∃ evaluation ∈ world.evaluations, evaluation.conversationId = conversationId ∧
        evaluation.node = node ∧ ∃ verdict, evaluation.result = .ok verdict ∧
          verdict.verified = true)

theorem World.Written.mono {conversationId : ConversationId} {node : MerkleNode}
    (hwritten : world.Written conversationId node) (hsteps : RunSteps world world') :
    world'.Written conversationId node := by
  obtain ⟨hextends, hevolves⟩ := hsteps.evolves
  obtain ⟨happlied, horigin⟩ := hwritten
  refine ⟨happlied.mono hevolves.identity.changes_suffix, ?_⟩
  rcases horigin with hauthored | ⟨evaluation, hmem, hverified⟩
  · exact .inl (hevolves.authored.subset hauthored)
  · exact .inr ⟨evaluation, hextends.subset hmem, hverified⟩

/-- Every verified write among the effects is justified. -/
def World.Writes (world : World) (effects : List Effect) : Prop :=
  ∀ conversationId node, .writeStore conversationId node true ∈ effects →
    world.Written conversationId node

variable {effects : List Effect}

theorem World.Writes.mono (hwrites : world.Writes effects) (hsteps : RunSteps world world') :
    world'.Writes effects :=
  fun conversationId node hmem => (hwrites conversationId node hmem).mono hsteps

theorem World.Writes.append {first second : List Effect} (hfirst : world.Writes first)
    (hsecond : world.Writes second) : world.Writes (first ++ second) := by
  intro conversationId node hmem
  rcases List.mem_append.mp hmem with hmem | hmem
  · exact hfirst _ _ hmem
  · exact hsecond _ _ hmem

theorem World.Writes.nil : world.Writes [] := fun _ _ hmem => nomatch hmem

theorem World.Writes.own (hwrites : OwnWrites world.engine effects) : world.Writes effects := by
  intro conversationId node hmem
  obtain ⟨hauthored, happlied⟩ := hwrites _ _ hmem
  exact ⟨happlied, .inl hauthored⟩

end Runs

namespace World

variable [Primitives] (world : World) (conversationId : ConversationId) (nowMs : Int)
variable {node : MerkleNode} {world' : World} {effects : List Effect}

theorem evaluate_writes (node : MerkleNode) :
    (world.evaluate conversationId node nowMs).2.Writes
      (Engine.evaluationEffects (world.evaluate conversationId node nowMs).1) := by
  cases hresult : world.engine.evaluateNode world.store conversationId node nowMs with
  | mk result after =>
      unfold evaluate
      rw [hresult]
      cases result with
      | error error => exact .nil
      | ok verdict =>
          obtain ⟨happlied, hwrites⟩ := Engine.evaluateNode_writes _ _ _ _ _ hresult
          intro conversation written hmem
          rcases hwrites _ _ hmem with ⟨rfl, rfl, hverified⟩ | ⟨hauthored, hother⟩
          · refine ⟨happlied hverified, .inr ⟨_, List.mem_append_right _ List.mem_cons_self, rfl, rfl,
              verdict, rfl, hverified⟩⟩
          · exact ⟨hother, .inl hauthored⟩

theorem Writes.event {world : World} (event : NodeEvent) : world.Writes [.emitEvent event] := by
  intro conversation written hmem
  simp at hmem

/-- What the handling of a node writes is justified at its end. -/
theorem writes_of_handling {before after : World} (h : Handling nowMs before effects after) :
    after.Writes effects := by
  induction h with
  | refl => exact .nil
  | evaluate conversationId node _ _ ih =>
      exact .append (World.Writes.mono ih (.single (.evaluate _ conversationId node nowMs)))
        (evaluate_writes _ conversationId nowMs node)
  | forget conversationId node _ _ _ ih =>
      exact World.Writes.mono ih (.single (.evaluate _ conversationId node nowMs))
  | report _ event ih => exact .append ih (.event event)
  | note _ _ ih => exact World.Writes.mono ih (.single (quiet_of_same rfl rfl rfl rfl))
  | hold conversationId _ _ ih =>
      refine .append (World.Writes.mono ih (.single (quiet_of_same rfl rfl rfl rfl))) ?_
      intro conversation written hmem
      simp at hmem
  | drop _ _ ih => exact World.Writes.mono ih (.single (quiet_of_same rfl rfl rfl rfl))

/-- The end of a call keeps the justifications and adds those of its effects. -/
theorem finish_writes {result : Except MerkleToxError (List Effect)}
    (hemitted : world.Writes world.emitted)
    (hresult : ∀ effects, result = .ok effects → world.Writes effects) :
    (world.finish result).Writes (world.finish result).emitted := by
  cases result with
  | error error => exact hemitted
  | ok effects =>
      exact (hemitted.append (hresult effects rfl)).mono (.single (world.finish_step (.ok effects)))

variable [WireCodec]

theorem step_writes (command : Command) (hemitted : world.Writes world.emitted) :
    (world.step command).Writes (world.step command).emitted := by
  have hcall : ∀ outcome : Outcome, (∀ voucher, Evolves voucher world.engine outcome.2) →
      outcome.Writes → (world.call outcome).Writes (world.call outcome).emitted := by
    intro outcome hevolves hwrites
    have hstep : RunStep world (world.withEngine outcome.2) := .quiet hevolves rfl
    refine finish_writes _ (World.Writes.mono hemitted (.single hstep)) fun effects hok => ?_
    exact .own (hwrites effects hok)
  cases command with
  | handleNode conversationId node nowMs fuel =>
      have hsteps := world.handleNode_steps conversationId nowMs node fuel
      have hhandling := (world.handleNode_kept conversationId nowMs node fuel).handling
      have hkept : (world.handleNode conversationId node nowMs fuel).2.Writes
          (world.handleNode conversationId node nowMs fuel).2.emitted := by
        rw [hhandling.emitted_eq]
        exact World.Writes.mono hemitted hsteps
      refine finish_writes _ hkept fun effects hok => ?_
      have hok : (world.handleNode conversationId node nowMs fuel).1 = .ok effects := hok
      have hwrites := writes_of_handling nowMs hhandling
      rwa [hok] at hwrites
  | authorNode conversationId content metadata nowMs =>
      exact hcall _
        (fun _ => world.engine.authorNode_evolves world.store conversationId nowMs content metadata)
        (world.engine.authorNode_writes world.store conversationId nowMs content metadata)
  | rotateConversationKey conversationId nowMs =>
      exact hcall _
        (fun _ => world.engine.rotateConversationKey_evolves world.store conversationId nowMs false)
        (world.engine.rotateConversationKey_writes world.store conversationId nowMs false)
  | senderRekey conversationId nowMs =>
      exact hcall _
        (fun _ => world.engine.senderRekey_evolves world.store conversationId nowMs)
        (world.engine.senderRekey_writes world.store conversationId nowMs)
  | storeWire conversationId nodeHash wire =>
      refine world.finish_writes hemitted fun effects hok => ?_
      cases hok
      intro conversation written hmem
      simp at hmem

/-- Every verified write of a run is of an own node, or of one found verified, that took
effect. -/
theorem run_writes (commands : List Command) (hemitted : world.Writes world.emitted) :
    (world.run commands).Writes (world.run commands).emitted := by
  induction commands generalizing world with
  | nil => exact hemitted
  | cons command rest ih => exact ih _ (world.step_writes command hemitted)

end World

end MerkleTox.Core
