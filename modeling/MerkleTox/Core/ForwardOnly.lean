import MerkleTox.Core.Reference
import MerkleTox.Core.Runs

/-! # Forward-only ratchets

Once the key of a sender's sequence number is consumed it does not come back, the
ratchet does not fall behind it, and another node with the number is a replay: in
every run whose uses of the ratchets are orderly. A distribution of sender keys drops
the sender's ratchet within its epoch, after which the next message starts the chain
again from its root and keeps the keys of all messages before it, consumed or not.
-/

namespace MerkleTox.Core

open Library Proto Relation

variable {conversationId : ConversationId} {em : Established}

/-- The histories of all established conversations are orderly. -/
def Engine.OrderlyRatchets (engine : Engine) : Prop :=
  ∀ entry ∈ engine.conversations.entries, ∀ em ∈ entry.2.established?, Orderly em.history

instance (engine : Engine) : Decidable engine.OrderlyRatchets :=
  inferInstanceAs (Decidable (∀ entry ∈ _, _))

theorem Engine.OrderlyRatchets.of_state {engine : Engine} (horderly : engine.OrderlyRatchets)
    (hstate : engine.establishedState conversationId = some em) : Orderly em.history :=
  horderly _ (AssocMap.get_eq_some_iff.mp (Engine.get_of_establishedState hstate)) em rfl

section Statement

variable [Primitives]

/-- The use consumed the key that a different node now asks for. -/
def RatchetUse.Contradicts (node : MerkleNode) : RatchetUse → Prop
  | .committed senderPk seq nodeHash _ =>
      senderPk = node.senderPk ∧ seq = node.seq ∧ nodeHash ≠ hash node
  | _ => False

instance (node : MerkleNode) : (use : RatchetUse) → Decidable (use.Contradicts node)
  | .committed .. => inferInstanceAs (Decidable (_ ∧ _ ∧ _))
  | .peeked .. | .tracked .. | .seeded .. => isFalse id

/-- An evaluation of a node whose key is consumed finds the ratchet of the sender in the
epoch of the node, and knows a sequence number of the sender that is no smaller. -/
def Evaluation.FindsRatchet (evaluation : Evaluation) : Prop :=
  ∀ em ∈ evaluation.before.establishedState evaluation.conversationId,
    ∀ use ∈ em.history, use.Contradicts evaluation.node →
      em.ratchetEpoch evaluation.node.senderPk = some evaluation.node.epoch ∧
      evaluation.node.seq ≤ (evaluation.before.overlay evaluation.store).getLastSequenceNumber
        evaluation.conversationId evaluation.node.senderPk

instance (evaluation : Evaluation) : Decidable evaluation.FindsRatchet :=
  inferInstanceAs (Decidable (∀ em ∈ _, ∀ use ∈ _, _ → _ ∧ _))

/-- The ratchets of a world, seen after an earlier world of the same run. -/
structure ForwardOnly (earlier later : World) : Prop where
  /-- A consumed key is not kept as a skipped one. -/
  notSkipped : ∀ {conversationId em senderPk seq},
    later.engine.establishedState conversationId = some em →
    Committed em.history senderPk seq → em.skippedKeys.get (senderPk, seq) = none
  /-- The ratchet of a sender does not move back within an epoch of consumed keys. -/
  position : ∀ {conversationId em em' senderPk seq ratchet ratchet'},
    earlier.engine.establishedState conversationId = some em →
    later.engine.establishedState conversationId = some em' →
    Committed em.history senderPk seq →
    em.senderRatchets.get senderPk = some ratchet → ratchet.epochId = epochOf seq →
    em'.senderRatchets.get senderPk = some ratchet' → ratchet'.epochId = epochOf seq →
    ratchet.lastSeq ≤ ratchet'.lastSeq
  /-- Another node with a consumed sequence number is a replay. -/
  replay : ∀ {evaluation em use}, evaluation ∈ later.evaluations →
    evaluation.before.establishedState evaluation.conversationId = some em →
    use ∈ em.history → use.Contradicts evaluation.node →
    evaluation.before.checkSequence evaluation.store evaluation.conversationId evaluation.node =
      .error (.validation (.invalidSequenceNumber evaluation.node.seq
        ((evaluation.before.overlay evaluation.store).getLastSequenceNumber
          evaluation.conversationId evaluation.node.senderPk)))
  /-- An authorized sender cannot have it accepted. -/
  rejected : ∀ {evaluation em use}, evaluation ∈ later.evaluations →
    evaluation.before.establishedState evaluation.conversationId = some em →
    use ∈ em.history → use.Contradicts evaluation.node →
    evaluation.before.senderAuthorized evaluation.store evaluation.conversationId
      evaluation.node = true → ∃ error, evaluation.result = .error error

end Statement

section Proof

variable [Primitives]

/-- Conversations with orderly histories have forward ratchets. -/
def ForwardIfOrderly (engine : Engine) : Prop :=
  ∀ {conversationId em}, engine.establishedState conversationId = some em →
    Orderly em.history → Forward em

variable {before after : Engine} {voucher : ConversationId → MerkleNode → Prop}

theorem ForwardIfOrderly.evolves (hevolves : Evolves voucher before after)
    (hforward : ForwardIfOrderly before) : ForwardIfOrderly after := by
  intro conversationId em hstate
  refine (hevolves.established conversationId).induction
    (fun em hratchets hhistory _ => .of_fresh hhistory hratchets) ?_
    (fun em hem => hforward hem) em hstate
  intro em em' hstep ih horderly
  exact (ih (horderly.suffix hstep.history_suffix)).step hstep horderly

/-- An orderly engine was orderly before, so its ratchets were forward then. -/
theorem Evolves.forward_before (hevolves : Evolves voucher before after)
    (horderly : after.OrderlyRatchets) (hforward : ForwardIfOrderly before)
    (hstate : before.establishedState conversationId = some em) : Forward em := by
  have hrun := hevolves.established conversationId
  rw [hstate] at hrun
  obtain ⟨em', hstate', hratchets⟩ := hrun.of_some
  exact hforward hstate ((horderly.of_state hstate').suffix hratchets.history_suffix)

/-- Another node with a consumed number is rejected by the replay check when the ratchet
is forward and found in the epoch of the node. -/
theorem checkSequence_of_contradicts {evaluation : Evaluation} {use : RatchetUse}
    (hforward : Forward em) (hfinds : evaluation.FindsRatchet)
    (hstate : evaluation.before.establishedState evaluation.conversationId = some em)
    (hmem : use ∈ em.history) (hcontradicts : use.Contradicts evaluation.node) :
    evaluation.before.checkSequence evaluation.store evaluation.conversationId evaluation.node =
      .error (.validation (.invalidSequenceNumber evaluation.node.seq
        ((evaluation.before.overlay evaluation.store).getLastSequenceNumber
          evaluation.conversationId evaluation.node.senderPk))) := by
  obtain ⟨hepoch, hlast⟩ := hfinds em hstate use hmem hcontradicts
  have hcommitted : Committed em.history evaluation.node.senderPk evaluation.node.seq := by
    cases use with
    | committed senderPk seq nodeHash found =>
        obtain ⟨rfl, rfl, -⟩ := hcontradicts
        exact ⟨nodeHash, found, hmem⟩
    | _ => cases hcontradicts
  simp only [Established.ratchetEpoch, Option.map_eq_some_iff] at hepoch
  obtain ⟨ratchet, hget, hepoch⟩ := hepoch
  have hbehind := hforward.behind hcommitted hget hepoch
  have hskipped : em.skippedKeys.contains (evaluation.node.senderPk, evaluation.node.seq) =
      false := by
    rw [AssocMap.contains_eq, hforward.notSkipped hcommitted]
    rfl
  have hreplay : evaluation.before.isReplay evaluation.conversationId evaluation.node = true := by
    simp [Engine.isReplay, hstate, hget, hepoch, hbehind, hskipped]
  simp only [Engine.checkSequence]
  rw [if_pos]
  simpa [hreplay] using hlast

/-- The steps of a run from an engine without conversations. -/
theorem forwardOnly_of_steps {start earlier later : World}
    (hempty : start.engine.conversations = .empty) (hnone : start.evaluations = [])
    (hfirst : RunSteps start earlier) (hsecond : RunSteps earlier later)
    (horderly : later.engine.OrderlyRatchets)
    (hfinds : ∀ evaluation ∈ later.evaluations, evaluation.FindsRatchet) :
    ForwardOnly earlier later := by
  have hinit : ForwardIfOrderly start.engine := by
    intro conversationId em hstate
    simp [Engine.establishedState, hempty] at hstate
  have hsteps : RunSteps start later := hfirst.trans hsecond
  obtain ⟨hlater, hbefore⟩ := hsteps.invariant ForwardIfOrderly ForwardIfOrderly.evolves
    hinit (by simp [hnone])
  have hevolves := hsteps.evolves_evaluation (by simp [hnone])
  have hcoherent := hsteps.coherent (by simp [hnone])
  -- A node that contradicts a use meets the replay check, as the ratchet is still in its epoch.
  have hreplay : ∀ {evaluation em use}, evaluation ∈ later.evaluations →
      evaluation.before.establishedState evaluation.conversationId = some em →
      use ∈ em.history → use.Contradicts evaluation.node → _ :=
    fun hmem hstate huse hcontradicts => checkSequence_of_contradicts
      ((hevolves _ hmem).forward_before horderly (hbefore _ hmem) hstate)
      (hfinds _ hmem) hstate huse hcontradicts
  refine ⟨?_, ?_, hreplay, ?_⟩
  · intro conversationId em senderPk seq hstate hcommitted
    exact (hlater hstate (horderly.of_state hstate)).notSkipped hcommitted
  · intro conversationId em em' senderPk seq ratchet ratchet' hstate hstate' hcommitted hget hepoch
      hget' hepoch'
    have hrun := hsecond.evolves.2.established conversationId
    rw [hstate, hstate'] at hrun
    obtain ⟨_, heq, hratchets⟩ := hrun.of_some
    cases heq
    have hahead : Ahead em senderPk (epochOf seq) ratchet.lastSeq := by
      refine ⟨hcommitted.committedIn, fun {other} hother _ => ?_⟩
      rw [hget] at hother
      cases hother
      exact le_rfl
    exact (hratchets.ahead (horderly.of_state hstate') hahead).bounded hget' hepoch'
  · intro evaluation em use hmem hstate huse hcontradicts hauthorized
    have hsequence := hreplay hmem hstate huse hcontradicts
    have hresult := hcoherent evaluation hmem
    unfold Evaluation.Coherent Engine.evaluateNode at hresult
    split at hresult
    next error _ _ => exact ⟨error, (congrArg Prod.fst hresult).symm⟩
    next assessment looked hvet =>
      have hadmitted := Engine.vet_ok hvet
      rw [hadmitted.sequence (hadmitted.authorized.trans hauthorized)] at hsequence
      cases hsequence

variable [WireCodec]

/-- Runs whose uses of the ratchets are orderly are forward-only. -/
theorem run_forwardOnly (selfPk : PhysicalDevicePk) (selfLogicalPk : LogicalIdentityPk)
    (selfSk : Option SigningKey) (selfDhSk : Option EphemeralX25519Sk) (rng : Rng)
    (earlier later : List Command)
    (horderly : ((World.new (.new selfPk selfLogicalPk selfSk selfDhSk rng)).run
      (earlier ++ later)).engine.OrderlyRatchets)
    (hfinds : ∀ evaluation ∈ ((World.new (.new selfPk selfLogicalPk selfSk selfDhSk rng)).run
      (earlier ++ later)).evaluations, evaluation.FindsRatchet) :
    ForwardOnly ((World.new (.new selfPk selfLogicalPk selfSk selfDhSk rng)).run earlier)
      ((World.new (.new selfPk selfLogicalPk selfSk selfDhSk rng)).run (earlier ++ later)) := by
  have hbetween := ((World.new (.new selfPk selfLogicalPk selfSk selfDhSk rng)).run
    earlier).run_steps later
  rw [← World.run_append] at hbetween
  exact forwardOnly_of_steps rfl rfl (World.run_steps _ earlier) hbetween horderly hfinds

end Proof

namespace ForwardOnly

/-! ## A run that is not forward-only -/

open Reference

/-- A device that is its own logical identity. -/
def start : World := .new (.new ⟨5⟩ ⟨5⟩ (some ⟨5⟩) none ⟨1, 0⟩)

/-- It opens a conversation and writes a message, with the sequence number 3. -/
def opening : List Command :=
  [.rotateConversationKey room 1000, .authorNode room (.text "first") [] 1000]

/-- It invites another identity and writes again, which first distributes its sender key
to the new device. -/
def inviting : List Command :=
  [.authorNode room (.control (.invite ⟨⟨9⟩, 1⟩)) [] 1000,
    .authorNode room (.text "second") [] 1000]

/-- A second node of the device with the sequence number 3. -/
def conflicting : MerkleNode :=
  { parents := []
    authorPk := ⟨5⟩
    senderPk := ⟨5⟩
    sequenceNumber := 3
    topologicalRank := 0
    networkTimestamp := 1000
    content := .text "other"
    metadata := []
    authentication := .ephemeralSignature ⟨0⟩
    powNonce := 0 }

/-- Without the distribution the run is forward-only, and the second node is evaluated. -/
theorem run_forwardOnly_opening :
    ForwardOnly (start.run opening)
      (start.run (opening ++ [.authorNode room (.text "second") [] 1000,
        .handleNode room conflicting 1000 1])) ∧
    (start.run (opening ++ [.authorNode room (.text "second") [] 1000,
      .handleNode room conflicting 1000 1])).evaluations.length = 1 :=
  ⟨run_forwardOnly _ _ _ _ _ opening _ (by decide +kernel) (by decide +kernel),
    by decide +kernel⟩

/-- After the distribution the key of the first message, consumed before, is kept again
as a skipped key, and the second node passes the replay check. -/
theorem distribution_restores_consumed_key :
    ¬ ForwardOnly (start.run opening) (start.run (opening ++ inviting)) ∧
      ((start.run (opening ++ inviting)).engine.establishedState room).map
          (fun em => (em.skippedKeys.get (⟨5⟩, 3)).map Prod.fst) =
        ((start.run (opening.take 1)).engine.establishedState room).map
          (fun em => (em.peekKeys ⟨5⟩ 3 1000).1.map Prod.fst) ∧
      (start.run (opening ++ inviting)).engine.checkSequence
        (start.run (opening ++ inviting)).store room conflicting = .ok () := by
  refine ⟨fun hforward => ?_, by decide +kernel, by decide +kernel⟩
  have hkept : ((start.run (opening ++ inviting)).engine.establishedState room).any (fun em =>
      em.history.any (fun use => match use with
        | .committed senderPk seq _ _ => senderPk = ⟨5⟩ && seq = 3
        | _ => false) && (em.skippedKeys.get (⟨5⟩, 3)).isSome) = true := by decide +kernel
  obtain ⟨em, hstate, hkept⟩ := (Option.any_eq_true _ _).mp hkept
  obtain ⟨hcommitted, hskipped⟩ := Bool.and_eq_true_iff.mp hkept
  obtain ⟨use, hmem, huse⟩ := List.any_eq_true.mp hcommitted
  cases use with
  | committed senderPk seq nodeHash found =>
      simp only [Bool.and_eq_true, decide_eq_true_eq] at huse
      obtain ⟨rfl, rfl⟩ := huse
      rw [hforward.notSkipped hstate ⟨nodeHash, found, hmem⟩] at hskipped
      cases hskipped
  | _ => cases huse

end ForwardOnly

end MerkleTox.Core
