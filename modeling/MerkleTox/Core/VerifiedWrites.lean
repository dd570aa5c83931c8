import MerkleTox.Core.Emission
import MerkleTox.Core.Reference

/-! # Why a node is verified

A received node that a run writes as verified is authentic and of an authorized
sender, or it is an anchor that the founder's certificate covers, or it is vouched
for by the authentic nodes that name it as a parent. The bootstrap kinds of
unauthorized senders pass the quarantine without any of these.
-/

namespace MerkleTox.Core

open Library Proto Relation

variable {looked : Engine} {nodeHash : NodeHash}

namespace Engine

/-- An anchor that rests on a certificate of the founder. -/
def anchorCertified [Primitives] (engine : Engine) (conversationId : ConversationId)
    (node : MerkleNode) : Bool :=
  match node.content with
  | .control (.anchorSnapshot _ cert) => engine.founderCertifies conversationId node cert .admin
  | .control (.softAnchor _ cert) => engine.founderCertifies conversationId node cert .message
  | _ => false

section Decision

variable [Primitives] {engine : Engine} {conversationId : ConversationId}
variable {node : MerkleNode} {assessment : Assessment} {authentic : Bool}

/-- A second soft anchor is refused; nothing is verified on account of that. -/
theorem judge_verified
    (h : (engine.judge conversationId node assessment authentic).1 = true) :
    (engine.decideVerified conversationId node assessment authentic).1 = true := by
  unfold judge dedupSoftAnchor at h
  simp only at h
  split at h
  · cases hverified : (engine.decideVerified conversationId node assessment authentic).1 with
    | true => rfl
    | false => simp [hverified] at h
  · exact h

/-- The ways in which a node can come to be verified. -/
theorem decideVerified_cases
    (h : (engine.decideVerified conversationId node assessment authentic).1 = true) :
    assessment.quarantined = false ∧
      ((assessment.authorized = true ∧ authentic = true) ∨
        (assessment.authorized = false ∧
          (skipsGenericPath node false = false ∨
            engine.anchorCertified conversationId node = true))) := by
  unfold decideVerified at h
  split at h
  · cases h
  next hquarantined =>
    refine ⟨by simpa using hquarantined, ?_⟩
    split at h
    next hgeneric =>
      simp only [Bool.and_eq_true, Bool.or_eq_true, Bool.not_eq_true'] at hgeneric
      obtain ⟨⟨-, hskip⟩, hopen⟩ := hgeneric
      cases hauthorized : assessment.authorized with
      | true =>
          rw [hauthorized] at hopen
          exact .inl ⟨rfl, by simpa using hopen⟩
      | false =>
          rw [hauthorized] at hskip
          exact .inr ⟨rfl, .inl hskip⟩
    next =>
      split at h
      · cases h
      next hauthorized =>
        refine .inr ⟨by simpa using hauthorized, ?_⟩
        unfold judgeCertificate at h
        unfold anchorCertified skipsGenericPath
        split at h
        next heq => exact .inl (by simp [heq])
        next heq =>
          simp only [Bool.and_eq_true] at h
          exact .inr (by simpa only [heq] using h.2)
        next heq =>
          simp only [Bool.and_eq_true] at h
          exact .inr (by simpa only [heq] using h.2)
        next => cases h

theorem anchorCertified_looked (hlooked : Looked engine looked) :
    looked.anchorCertified conversationId node = engine.anchorCertified conversationId node := by
  obtain ⟨distances, ancestors, searches, paths, equivocations, rfl⟩ := hlooked
  rfl

variable {store : InMemoryStore}

theorem isAuthentic_looked (hlooked : Looked engine looked) :
    looked.isAuthentic store conversationId node =
      engine.isAuthentic store conversationId node := by
  obtain ⟨distances, ancestors, searches, paths, equivocations, rfl⟩ := hlooked
  rfl

theorem conclude_verified {nowMs : Int} {verdict : Verdict}
    (h : (engine.conclude store conversationId node assessment nowMs).1 = .ok verdict)
    (hverified : verdict.verified = true) :
    ((engine.usedKeys conversationId node assessment).engine.decideVerified conversationId node
      assessment (engine.isAuthentic store conversationId node)).1 = true := by
  have hjudged := (commit_verdict _ store conversationId node nowMs h).1
  rw [hverified, isAuthentic_usedKeys] at hjudged
  exact judge_verified hjudged.symm

/-- A node of an unauthorized sender that does not wait is vouched for or of a bootstrap
kind. -/
theorem vouched_of_not_quarantined {nowMs : Int}
    (h : engine.isQuarantined store conversationId node false nowMs = false) :
    node.isBootstrap = true ∨
      vouchThreshold ≤ engine.vouchCount conversationId (hash node) := by
  unfold isQuarantined at h
  simp only [Bool.or_eq_false_iff] at h
  obtain ⟨⟨-, hvouched⟩, -⟩ := h
  cases hbootstrap : node.isBootstrap with
  | true => exact .inl rfl
  | false =>
      rw [hbootstrap] at hvouched
      exact .inr (by simpa using hvouched)

end Decision

end Engine

namespace Evaluation

variable [Primitives]

/-- The sender of the node is authorized in the causal context of the node. -/
def authorized (evaluation : Evaluation) : Bool :=
  evaluation.before.senderAuthorized evaluation.store evaluation.conversationId evaluation.node

/-- The signature or the MAC of the node holds under the keys of the engine. -/
def authenticated (evaluation : Evaluation) : Bool :=
  evaluation.before.authenticationHolds evaluation.store evaluation.conversationId
    evaluation.node

/-- The node is of a bootstrap kind, anchors apart. -/
def isExempt (evaluation : Evaluation) : Bool :=
  evaluation.node.isBootstrap &&
    match evaluation.node.content with
    | .control (.anchorSnapshot ..) => false
    | _ => true

/-- What the evaluation of a node that it verifies rests on. -/
theorem Coherent.verified {evaluation : Evaluation} (hcoherent : evaluation.Coherent)
    {verdict : Engine.Verdict} (hresult : evaluation.result = .ok verdict)
    (hverified : verdict.verified = true) :
    (evaluation.authorized = true ∧ evaluation.authenticated = true) ∨
    (evaluation.authorized = false ∧
      (evaluation.before.anchorCertified evaluation.conversationId evaluation.node = true ∨
        vouchThreshold ≤ evaluation.before.vouchCount evaluation.conversationId
          (hash evaluation.node) ∨
        evaluation.isExempt = true)) := by
  have hlooked : Looked evaluation.before (evaluation.before.vet evaluation.store
    evaluation.conversationId evaluation.node evaluation.nowMs).2 := Engine.vet_looked
  unfold Coherent Engine.evaluateNode at hcoherent
  split at hcoherent
  next error looked heq => cases (congrArg Prod.fst hcoherent).trans hresult
  next assessment looked heq =>
    have hadmitted := Engine.vet_ok heq
    rw [heq] at hlooked
    have hdecided := Engine.conclude_verified ((congrArg Prod.fst hcoherent).trans hresult)
      hverified
    obtain ⟨hquarantined, ⟨hauthorized, hauthentic⟩ | ⟨hauthorized, hpath⟩⟩ :=
      Engine.decideVerified_cases hdecided
    · rw [Engine.isAuthentic_looked hlooked] at hauthentic
      exact .inl ⟨hadmitted.authorized.symm.trans hauthorized, hadmitted.authentic hauthentic⟩
    · refine .inr ⟨hadmitted.authorized.symm.trans hauthorized, ?_⟩
      have hkeys : (looked.usedKeys evaluation.conversationId evaluation.node
          assessment).engine = looked := by
        simp [Engine.usedKeys, hauthorized]
      rw [hkeys, Engine.anchorCertified_looked hlooked] at hpath
      rcases hpath with hgeneric | hcertified
      · rw [hadmitted.quarantined, hauthorized] at hquarantined
        rcases Engine.vouched_of_not_quarantined hquarantined with hbootstrap | hvouched
        · refine .inr (.inr ?_)
          unfold isExempt
          rw [hbootstrap, Bool.true_and]
          unfold Engine.skipsGenericPath at hgeneric
          split
          next hcontent => simp [hcontent] at hgeneric
          next => rfl
        · exact .inr (.inl hvouched)
      · exact .inl hcertified

end Evaluation

/-! ## Vouchers -/

/-- The devices recorded for a node are as many as the count of its vouchers. -/
theorem Engine.vouchers_of_vouchCount {engine : Engine} {conversationId : ConversationId}
    (hpositive : 0 < engine.vouchCount conversationId nodeHash) :
    ∃ devices : List PhysicalDevicePk, devices.Nodup ∧
      devices.length = engine.vouchCount conversationId nodeHash ∧
      ∀ devicePk ∈ devices, engine.VouchedBy conversationId nodeHash devicePk := by
  unfold Engine.vouchCount at hpositive ⊢
  cases hget : engine.conversations.get conversationId with
  | none => simp [hget] at hpositive
  | some conversation =>
      cases hdevices : conversation.vouchers.get nodeHash with
      | none => simp [hget, hdevices] at hpositive
      | some devices =>
          refine ⟨devices.keys, devices.nodupKeys, ?_, fun devicePk hmem => ?_⟩
          · simp [hdevices, AssocMap.keys, AssocMap.size]
          · exact ⟨conversation, devices, hget, hdevices,
              (devices.contains_iff_mem_keys devicePk).mpr hmem⟩

section Vouchers

variable [Primitives] {world world' : World}

/-- The device sent an authentic node that names the hash as a parent. -/
def World.VouchedFor (world : World) (conversationId : ConversationId) (nodeHash : NodeHash)
    (devicePk : PhysicalDevicePk) : Prop :=
  ∃ node, world.Voucher conversationId node ∧ nodeHash ∈ node.parents ∧
    node.senderPk = devicePk

variable {conversationId : ConversationId}

theorem World.Voucher.mono {node : MerkleNode} (hvoucher : world.Voucher conversationId node)
    (hextends : world.evaluations <+: world'.evaluations) : world'.Voucher conversationId node := by
  obtain ⟨evaluation, hmem, hvouches⟩ := hvoucher
  exact ⟨evaluation, hextends.subset hmem, hvouches⟩

/-- Vouchers are recorded of authentic nodes only. -/
theorem RunSteps.vouchedFor (hsteps : RunSteps world world')
    (hinit : ∀ conversationId nodeHash devicePk,
      ¬ world.engine.VouchedBy conversationId nodeHash devicePk) {devicePk : PhysicalDevicePk}
    (hvouched : world'.engine.VouchedBy conversationId nodeHash devicePk) :
    world'.VouchedFor conversationId nodeHash devicePk := by
  rcases hsteps.evolves.2.vouchers hvouched with hold | hnew
  · exact absurd hold (hinit _ _ _)
  · exact hnew

/-- So too before each of the evaluations. -/
theorem RunSteps.vouchedFor_before (hsteps : RunSteps world world')
    (hevaluations : world.evaluations = [])
    (hinit : ∀ conversationId nodeHash devicePk,
      ¬ world.engine.VouchedBy conversationId nodeHash devicePk) :
    ∀ evaluation ∈ world'.evaluations, ∀ conversationId nodeHash devicePk,
      evaluation.before.VouchedBy conversationId nodeHash devicePk →
        world'.VouchedFor conversationId nodeHash devicePk := by
  induction hsteps with
  | refl =>
      intro evaluation hmem
      rw [hevaluations] at hmem
      cases hmem
  | @tail middle after hfirst hstep ih =>
      have hextends := (RunSteps.evolves (ReflTransGen.single hstep)).1
      have hmono : ∀ {conversationId nodeHash devicePk},
          middle.VouchedFor conversationId nodeHash devicePk →
            after.VouchedFor conversationId nodeHash devicePk := by
        rintro conversationId nodeHash devicePk ⟨node, hvoucher, hparent, hsender⟩
        exact ⟨node, hvoucher.mono hextends, hparent, hsender⟩
      have hmiddle : ∀ evaluation ∈ middle.evaluations, ∀ conversationId nodeHash devicePk,
          evaluation.before.VouchedBy conversationId nodeHash devicePk →
            after.VouchedFor conversationId nodeHash devicePk :=
        fun evaluation hmem _ _ _ hvouched => hmono (ih evaluation hmem _ _ _ hvouched)
      cases hstep with
      | evaluate conversationId node nowMs =>
          intro evaluation hmem
          rcases List.mem_append.mp hmem with hmem | hmem
          · exact hmiddle evaluation hmem
          · rw [List.mem_singleton.mp hmem]
            exact fun _ _ _ hvouched => hmono (RunSteps.vouchedFor hfirst hinit hvouched)
      | quiet _ heq =>
          rw [heq]
          exact hmiddle

end Vouchers

/-! ## The verified writes of a run -/

/-- What a received node that is verified rests on; nothing is said of the bootstrap
kinds of unauthorized senders. -/
def World.RestsOn [Primitives] (world : World) (evaluation : Evaluation) : Prop :=
  (evaluation.authorized = true ∧ evaluation.authenticated = true) ∨
  (evaluation.authorized = false ∧
    (evaluation.before.anchorCertified evaluation.conversationId evaluation.node = true ∨
      (∃ devices : List PhysicalDevicePk, devices.Nodup ∧ vouchThreshold ≤ devices.length ∧
        ∀ devicePk ∈ devices,
          world.VouchedFor evaluation.conversationId (hash evaluation.node) devicePk) ∨
      evaluation.isExempt = true))

/-- Every node that a run writes as verified was authored by the engine, or evaluated
and found to rest on its sender's authority, on the founder's or on its vouchers. -/
theorem run_verified_writes [Primitives] [WireCodec] (selfPk : PhysicalDevicePk)
    (selfLogicalPk : LogicalIdentityPk) (selfSk : Option SigningKey)
    (selfDhSk : Option EphemeralX25519Sk) (rng : Rng) (commands : List Command)
    (conversationId : ConversationId) (node : MerkleNode)
    (hwrite : .writeStore conversationId node true ∈
      ((World.new (.new selfPk selfLogicalPk selfSk selfDhSk rng)).run commands).emitted) :
    (conversationId, node) ∈ ((World.new (.new selfPk selfLogicalPk selfSk selfDhSk rng)).run
      commands).engine.authored ∨
    ∃ evaluation ∈ ((World.new (.new selfPk selfLogicalPk selfSk selfDhSk rng)).run
      commands).evaluations, evaluation.conversationId = conversationId ∧
        evaluation.node = node ∧ ((World.new (.new selfPk selfLogicalPk selfSk selfDhSk rng)).run
          commands).RestsOn evaluation := by
  have hsteps := (World.new (.new selfPk selfLogicalPk selfSk selfDhSk rng)).run_steps commands
  have hunvouched : ∀ conversationId nodeHash devicePk,
      ¬ (Engine.new selfPk selfLogicalPk selfSk selfDhSk rng).VouchedBy conversationId nodeHash
        devicePk := by
    rintro conversationId nodeHash devicePk ⟨conversation, devices, hget, -⟩
    simp [Engine.new] at hget
  have hwritten := (World.new (.new selfPk selfLogicalPk selfSk selfDhSk rng)).run_writes commands
    (fun _ _ hmem => absurd hmem List.not_mem_nil) _ _ hwrite
  rcases hwritten.2 with hauthored | ⟨evaluation, hmem, rfl, rfl, verdict, hresult, hverified⟩
  · exact .inl hauthored
  · refine .inr ⟨evaluation, hmem, rfl, rfl, ?_⟩
    have hcoherent := hsteps.coherent (fun _ h => absurd h List.not_mem_nil) evaluation hmem
    refine (hcoherent.verified hresult hverified).imp_right fun hrests => ⟨hrests.1, ?_⟩
    have hpath := hrests.2
    rcases hpath with hcertified | hcount | hexempt
    · exact .inl hcertified
    · -- The recorded vouchers are distinct devices, each the sender of an authentic child.
      obtain ⟨devices, hnodup, hlength, hvouched⟩ := Engine.vouchers_of_vouchCount
        (Nat.lt_of_lt_of_le Nat.one_pos hcount)
      exact .inr (.inl ⟨devices, hnodup, hlength ▸ hcount, fun devicePk hdevice =>
        hsteps.vouchedFor_before rfl hunvouched evaluation hmem _ _ _
          (hvouched devicePk hdevice)⟩)
    · exact .inr (.inr hexempt)

/-- The node is authentic and of an authorized sender, or enough distinct authorized
devices sent authentic nodes that name it as a parent. -/
def World.Endorsed [Primitives] (world : World) (conversationId : ConversationId)
    (node : MerkleNode) : Prop :=
  (∃ evaluation ∈ world.evaluations, evaluation.conversationId = conversationId ∧
    evaluation.node = node ∧ evaluation.authorized = true ∧ evaluation.authenticated = true) ∨
  ∃ devices : List PhysicalDevicePk, devices.Nodup ∧ vouchThreshold ≤ devices.length ∧
    ∀ devicePk ∈ devices, ∃ evaluation ∈ world.evaluations,
      evaluation.conversationId = conversationId ∧ hash node ∈ evaluation.node.parents ∧
        evaluation.node.senderPk = devicePk ∧ evaluation.authorized = true ∧
          evaluation.authenticated = true

namespace VerifiedWrites

/-! ## An anchor of a device without authority -/

open Reference

/-- An observer with keys of its own. -/
def start : World := .new (.new ⟨5⟩ ⟨5⟩ none none ⟨1, 0⟩)

/-- The device anchors the conversation before its authorization has arrived. -/
def anchor : MerkleNode :=
  sign
    { parents := [hash genesis]
      authorPk := ⟨1⟩
      senderPk := ⟨50⟩
      sequenceNumber := 1
      topologicalRank := 1
      networkTimestamp := 1000
      content := .control (.anchorSnapshot ⟨hash genesis, [⟨⟨1⟩, 0, 1000⟩], []⟩
        (certificate ⟨50⟩))
      metadata := []
      authentication := .ephemeralSignature ⟨0⟩
      powNonce := 0 }

def anchoring : List Command :=
  [.handleNode room genesis 1000 1, .handleNode room anchor 1000 1]

/-- The anchor is written as verified on the founder's certificate. -/
theorem run_verified_writes_anchor :
    .writeStore room anchor true ∈ (start.run anchoring).emitted ∧
      ((room, anchor) ∈ (start.run anchoring).engine.authored ∨
        ∃ evaluation ∈ (start.run anchoring).evaluations, evaluation.conversationId = room ∧
          evaluation.node = anchor ∧ (start.run anchoring).RestsOn evaluation) := by
  have hwrite : .writeStore room anchor true ∈ (start.run anchoring).emitted := by
    decide +kernel
  unfold start at hwrite ⊢
  exact ⟨hwrite, run_verified_writes ⟨5⟩ ⟨5⟩ none none ⟨1, 0⟩ anchoring room anchor hwrite⟩

/-- Its sender is not authorized, and no node names it as a parent. -/
theorem anchor_verified_unendorsed :
    .writeStore room anchor true ∈ (start.run anchoring).emitted ∧
      ¬ (start.run anchoring).Endorsed room anchor := by
  have hunauthorized : ∀ evaluation ∈ (start.run anchoring).evaluations,
      evaluation.node = anchor → evaluation.authorized = false := by decide +kernel
  have hchildless : ∀ evaluation ∈ (start.run anchoring).evaluations,
      hash anchor ∉ evaluation.node.parents := by decide +kernel
  refine ⟨by decide +kernel, ?_⟩
  rintro (⟨evaluation, hmem, -, hnode, hauthorized, -⟩ | ⟨devices, -, hlength, hvouch⟩)
  · rw [hunauthorized evaluation hmem hnode] at hauthorized
    cases hauthorized
  · obtain ⟨devicePk, hdevice⟩ := List.exists_mem_of_length_pos hlength
    obtain ⟨evaluation, hmem, -, hparent, -⟩ := hvouch devicePk hdevice
    exact hchildless evaluation hmem hparent

end VerifiedWrites

end MerkleTox.Core
