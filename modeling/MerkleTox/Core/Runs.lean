import MerkleTox.Core.Admission
import MerkleTox.Core.Handling

/-! # What a run of the engine can do

The evaluation of a node evolves the engine, with the node as a voucher if it is
authentic, and a run is a sequence of evaluations, of calls that author, and of
changes of store and cache. `RunStep` says this once, for the invariants of runs.
-/

namespace MerkleTox.Core

open Library Proto Relation

/-! ## The evaluation of a node -/

namespace Engine

variable {devices : AssocMap PhysicalDevicePk Int} {senderPk devicePk : PhysicalDevicePk}
variable {vouchers : Vouchers}

theorem vouchFor_contains {nowMs : Int} {parent nodeHash : NodeHash}
    (hget : (vouchFor senderPk nowMs vouchers parent).get nodeHash = some devices)
    (hcontains : devices.contains devicePk) :
    (∃ old, vouchers.get nodeHash = some old ∧ old.contains devicePk) ∨
      nodeHash = parent ∧ senderPk = devicePk := by
  have hdefault : ((vouchers.get parent).getD .empty).contains devicePk →
      ∃ old, vouchers.get parent = some old ∧ old.contains devicePk := by
    intro h
    cases hold : vouchers.get parent with
    | none =>
        rw [hold] at h
        cases h
    | some old =>
        rw [hold] at h
        exact ⟨old, rfl, h⟩
  simp only [vouchFor] at hget
  rw [AssocMap.get_insert] at hget
  split at hget
  next heq =>
    subst heq
    cases hget
    split at hcontains
    next =>
      by_cases hsender : devicePk = senderPk
      · exact .inr ⟨rfl, hsender.symm⟩
      · rw [AssocMap.contains_eq, AssocMap.get_insert_of_ne _ _ hsender,
          ← AssocMap.contains_eq] at hcontains
        exact .inl (hdefault hcontains)
    next => exact .inl (hdefault hcontains)
  next => exact .inl ⟨devices, hget, hcontains⟩

/-- A voucher recorded for a node is an old one or the sender of a child. -/
theorem vouchFor_foldl_contains {nowMs : Int} {parents : List NodeHash} {nodeHash : NodeHash}
    (hget : (parents.foldl (vouchFor senderPk nowMs) vouchers).get nodeHash = some devices)
    (hcontains : devices.contains devicePk) :
    (∃ old, vouchers.get nodeHash = some old ∧ old.contains devicePk) ∨
      nodeHash ∈ parents ∧ senderPk = devicePk := by
  induction parents generalizing vouchers with
  | nil => exact .inl ⟨devices, hget, hcontains⟩
  | cons parent rest ih =>
      rcases ih hget with ⟨old, hold, holdContains⟩ | ⟨hmem, hsender⟩
      · refine (vouchFor_contains hold holdContains).imp_right ?_
        rintro ⟨heq, hsender⟩
        exact ⟨heq ▸ List.mem_cons_self, hsender⟩
      · exact .inr ⟨List.mem_cons_of_mem _ hmem, hsender⟩

variable [Primitives] {voucher : ConversationId → MerkleNode → Prop}
variable (engine : Engine) (store : InMemoryStore) (conversationId : ConversationId)
variable (node : MerkleNode) (nowMs : Int)

theorem assess_evolves :
    Evolves voucher engine (engine.assess store conversationId node nowMs).2 := by
  unfold assess
  split
  next heq => exact .of_eq heq (engine.checkStructure_evolves store node)
  next heq =>
    exact .trans (.of_eq heq (engine.checkStructure_evolves store node))
      (authorization_evolves _ store conversationId node)

theorem vet_evolves :
    Evolves voucher engine (engine.vet store conversationId node nowMs).2 := by
  have hrecord : ∀ engine : Engine,
      Evolves voucher engine (engine.recordEquivocation conversationId node) := by
    intro engine
    unfold recordEquivocation
    split
    · split
      · exact .refl engine
      · exact .of_same rfl rfl rfl
    · exact .refl engine
  unfold vet
  split
  next heq => exact .of_eq heq (engine.assess_evolves store conversationId node nowMs)
  next heq =>
    refine .trans (.of_eq heq (engine.assess_evolves store conversationId node nowMs)) ?_
    split
    · exact .refl _
    · split
      · simp only
        split <;> exact hrecord _
      · exact .refl _

/-- A received key establishes the conversation or adds an epoch to it. -/
theorem receiveKey_evolves (generation : Nat) (kConv : KConv) (timestamp : Int) :
    Evolves voucher engine (engine.setConversation conversationId
      (.established (engine.receiveKey conversationId generation kConv timestamp))) := by
  unfold receiveKey
  split
  next em hget =>
    have hstate : engine.establishedState conversationId = some em := by
      simp [establishedState, hget, Conversation.established?]
    have hkept : (em.addEpoch generation kConv).vouchers = em.vouchers ∧
        (em.addEpoch generation kConv).skippedKeys = em.skippedKeys ∧
        (em.addEpoch generation kConv).history = em.history := by
      unfold Established.addEpoch
      simp only
      split <;> exact ⟨rfl, rfl, rfl⟩
    refine .setEstablished hstate (.single (.other ?_ hkept.2.1 hkept.2.2)) hkept.1
    intro senderPk ratchet hratchet
    unfold Established.addEpoch at hratchet
    simp only at hratchet
    split at hratchet
    · simp at hratchet
    · exact hratchet
  next pending hget =>
    have hstate : engine.establishedState conversationId = none := by
      simp [establishedState, hget, Conversation.established?]
    refine .setConversation ?_ ?_
    · rw [hstate]
      exact .single (.establish rfl rfl)
    · intro nodeHash devices devicePk hdevices hcontains
      exact .inl ⟨.pending pending, devices, hget, hdevices, hcontains⟩
  next hget =>
    have hstate : engine.establishedState conversationId = none := by
      simp [establishedState, hget]
    refine .setConversation ?_ ?_
    · rw [hstate]
      exact .single (.establish rfl rfl)
    · intro nodeHash devices devicePk hdevices
      simp [Conversation.vouchers, Pending.establish, Pending.new] at hdevices

theorem processKeyWrap_evolves (generation : Nat) (ephemeralPk : EphemeralX25519Pk)
    (wrappedKeys : List WrappedKey) :
    Evolves voucher engine (engine.processKeyWrap conversationId node generation ephemeralPk
      wrappedKeys).engine := by
  have haccept : ∀ (engine : Engine) kConv, Evolves voucher engine
      (engine.acceptKey conversationId generation kConv node.networkTimestamp) :=
    fun engine kConv => (engine.receiveKey_evolves conversationId generation kConv
      node.networkTimestamp).trans (.of_same rfl rfl rfl)
  unfold processKeyWrap
  simp only
  split
  · exact .of_same rfl rfl rfl
  · refine .trans ?_ (haccept _ _)
    exact .of_same rfl rfl rfl

theorem processKeys_evolves :
    Evolves voucher engine (engine.processKeys conversationId node).engine := by
  have hseed : ∀ payload, Evolves voucher engine (engine.modifyEstablished conversationId
      fun em => em.seedSender node.senderPk node.epoch payload) := by
    intro payload
    refine .modifyEstablished (fun em => .seed em node.senderPk node.epoch payload) fun em => ?_
    unfold Established.seedSender
    split
    · rfl
    · split <;> rfl
  unfold processKeys
  split
  · exact engine.processKeyWrap_evolves conversationId node _ _ _
  · split
    · exact .refl engine
    · exact hseed _
  · split <;> exact .refl engine
  · exact .refl engine

/-- The keys of a node leave alone what its authenticity rests on. -/
theorem processKeys_signingKeys :
    (engine.processKeys conversationId node).engine.peerEphemeralSigningKeys =
        engine.peerEphemeralSigningKeys ∧
      (engine.processKeys conversationId node).engine.pendingCache = engine.pendingCache := by
  have hmodify : ∀ f, (engine.modifyEstablished conversationId f).peerEphemeralSigningKeys =
        engine.peerEphemeralSigningKeys ∧
      (engine.modifyEstablished conversationId f).pendingCache = engine.pendingCache := by
    intro f
    unfold modifyEstablished
    split <;> exact ⟨rfl, rfl⟩
  unfold processKeys
  split
  · unfold processKeyWrap
    simp only
    split <;> exact ⟨rfl, rfl⟩
  · split
    · exact ⟨rfl, rfl⟩
    · exact hmodify _
  · split <;> exact ⟨rfl, rfl⟩
  · exact ⟨rfl, rfl⟩

theorem isAuthentic_processKeys :
    (engine.processKeys conversationId node).engine.isAuthentic store conversationId node =
      engine.isAuthentic store conversationId node := by
  obtain ⟨hkeys, hcache⟩ := engine.processKeys_signingKeys conversationId node
  unfold isAuthentic
  split
  · rfl
  · split
    next hgenesis =>
      -- A genesis carries no keys.
      have hsame : (engine.processKeys conversationId node).engine = engine := by
        unfold processKeys
        split
        next hcontent => simp [hcontent, Content.isGenesis] at hgenesis
        next hcontent => simp [hcontent, Content.isGenesis] at hgenesis
        next hcontent => simp [hcontent, Content.isGenesis] at hgenesis
        next => rfl
      rw [hsame]
    next => simp only [ephemeralAuthentic, overlay, hkeys, hcache]

variable (assessment : Assessment)

theorem judge_evolves (authentic : Bool) :
    Evolves voucher engine (engine.judge conversationId node assessment authentic).2 := by
  have hdedup : ∀ (engine : Engine) verified, Evolves voucher engine
      (engine.dedupSoftAnchor conversationId node verified).2 := by
    intro engine verified
    unfold dedupSoftAnchor
    split
    · simp only
      split
      · exact .refl engine
      · split
        · exact .refl engine
        · exact .of_same rfl rfl rfl
    · exact .refl engine
  have hcertificate : Evolves voucher engine
      (engine.judgeCertificate conversationId node assessment).2 := by
    unfold judgeCertificate
    split
    · exact .withIdentity (.single (.authorize ..))
    · exact .refl engine
    · exact .refl engine
    · exact .refl engine
  have hdecide : Evolves voucher engine
      (engine.decideVerified conversationId node assessment authentic).2 := by
    unfold decideVerified
    split
    · exact .refl engine
    · split
      · exact .refl engine
      · split
        · exact .refl engine
        · exact hcertificate
  exact hdecide.trans (hdedup _ _)

theorem storeNode_evolves (verified : Bool) :
    Evolves voucher engine (engine.storeNode store conversationId node verified).2 := by
  unfold storeNode
  split
  · exact .refl engine
  · exact .of_same rfl rfl rfl

theorem consumeOpkSk_evolves (opkId : NodeHash) :
    Evolves voucher engine (engine.consumeOpkSk opkId) := by
  unfold consumeOpkSk
  split
  · exact .refl engine
  · split
    · exact .of_same rfl rfl rfl
    · exact .refl engine

theorem consumeOpkSks_evolves (opkIds : List NodeHash) :
    Evolves voucher engine (opkIds.foldl consumeOpkSk engine) := by
  induction opkIds generalizing engine with
  | nil => exact .refl engine
  | cons opkId rest ih => exact (engine.consumeOpkSk_evolves opkId).trans (ih _)

theorem openConversation_evolves :
    Evolves voucher engine (engine.openConversation conversationId) where
  selfPk := rfl
  authored := List.suffix_rfl
  searched := .refl
  identity := .refl
  established other := by
    simp only [establishedState, openConversation]
    by_cases heq : other = conversationId
    · subst heq
      rw [AssocMap.get_orInsert_self]
      cases engine.conversations.get other with
      | none => exact .refl
      | some conversation => exact .refl
    · rw [AssocMap.get_orInsert_of_ne _ _ heq]
  vouchers {other nodeHash devicePk} h := by
    obtain ⟨conversation, devices, hget, hdevices, hcontains⟩ := h
    simp only [openConversation] at hget
    by_cases heq : other = conversationId
    · subst heq
      rw [AssocMap.get_orInsert_self] at hget
      cases hold : engine.conversations.get other with
      | some old =>
          rw [hold] at hget
          cases hget
          exact .inl ⟨_, devices, hold, hdevices, hcontains⟩
      | none =>
          rw [hold] at hget
          cases hget
          simp [Conversation.vouchers, Pending.new] at hdevices
    · rw [AssocMap.get_orInsert_of_ne _ _ heq] at hget
      exact .inl ⟨conversation, devices, hget, hdevices, hcontains⟩

theorem vouchParents_evolves (authentic : Bool)
    (hvoucher : authentic = true → voucher conversationId node) :
    Evolves voucher engine (engine.vouchParents conversationId node authentic nowMs) := by
  unfold vouchParents
  split
  next hauthentic =>
    refine .modifyConversation ?_ ?_
    · intro conversation
      cases conversation with
      | pending state => exact .refl
      | established em => exact .single (.step (.other (fun _ _ h => h) rfl rfl))
    · intro conversation nodeHash devices devicePk hget hcontains
      have hold : (node.parents.foldl (vouchFor node.senderPk nowMs)
          conversation.vouchers).get nodeHash = some devices := by
        cases conversation <;> exact hget
      refine (vouchFor_foldl_contains hold hcontains).imp_right ?_
      rintro ⟨hmem, hsender⟩
      exact ⟨node, hvoucher hauthentic, hmem, hsender⟩
  next => exact .refl engine

theorem noteVerifiedSeq_evolves (verified : Bool) :
    Evolves voucher engine (engine.noteVerifiedSeq conversationId node verified) := by
  unfold noteVerifiedSeq
  split
  · exact .of_same rfl rfl rfl
  · exact .refl engine

theorem recordNode_evolves (opkIds : List NodeHash) (verified authentic : Bool)
    (hvoucher : authentic = true → voucher conversationId node) :
    Evolves voucher engine
      (engine.recordNode conversationId node opkIds verified authentic nowMs) := by
  unfold recordNode
  refine .trans ?_ (noteVerifiedSeq_evolves _ conversationId node verified)
  refine .trans ?_ (vouchParents_evolves _ conversationId node nowMs authentic hvoucher)
  exact .trans (engine.consumeOpkSks_evolves opkIds) (openConversation_evolves _ conversationId)

theorem settle_evolves (verified authentic : Bool) :
    Evolves voucher engine
      (engine.settle store conversationId node verified authentic nowMs).2 := by
  have hside : Evolves voucher engine _ := engine.applySideEffects_evolves store conversationId
    node nowMs fun engine flag => engine.rotateConversationKey_evolves store conversationId
      nowMs flag
  unfold settle
  split
  · split
    next heq => exact .of_eq heq hside
    next heq =>
      refine .trans (.of_eq heq hside) ?_
      split
      · exact revalidateAllVerifiedNodes_evolves _ store conversationId nowMs
      · exact .refl _
  · exact .refl engine

theorem commit_evolves (keyEffects : List Effect) (opkIds : List NodeHash)
    (verified authentic : Bool) (hvoucher : authentic = true → voucher conversationId node) :
    Evolves voucher engine (engine.commit store conversationId node keyEffects opkIds verified
      authentic nowMs).2 := by
  have hstore : Evolves voucher engine _ :=
    engine.storeNode_evolves store conversationId node verified
  unfold commit
  split
  next heq => exact .of_eq heq hstore
  next heq =>
    refine .trans (.of_eq heq hstore) ?_
    refine .trans
      (recordNode_evolves _ conversationId node nowMs opkIds verified authentic hvoucher) ?_
    split <;>
    next heq => exact .of_eq heq (settle_evolves _ store conversationId node nowMs _ _)

/-- The verdict is the judgement. -/
theorem commit_verdict {keyEffects : List Effect} {opkIds : List NodeHash}
    {verified authentic : Bool} {verdict : Verdict}
    (h : (engine.commit store conversationId node keyEffects opkIds verified authentic
      nowMs).1 = .ok verdict) :
    verdict.verified = verified ∧ verdict.authentic = authentic := by
  unfold commit at h
  split at h
  next => cases h
  next =>
    split at h
    next => cases h
    next =>
      cases h
      exact ⟨rfl, rfl⟩

theorem usedKeys_evolves :
    Evolves voucher engine (engine.usedKeys conversationId node assessment).engine := by
  unfold usedKeys
  split
  · exact engine.processKeys_evolves conversationId node
  · exact .refl engine

theorem isAuthentic_usedKeys :
    (engine.usedKeys conversationId node assessment).engine.isAuthentic store conversationId
      node = engine.isAuthentic store conversationId node := by
  unfold usedKeys
  split
  · exact engine.isAuthentic_processKeys store conversationId node
  · rfl

theorem conclude_evolves
    (hvoucher : engine.isAuthentic store conversationId node = true →
      voucher conversationId node) :
    Evolves voucher engine
      (engine.conclude store conversationId node assessment nowMs).2 := by
  refine (engine.usedKeys_evolves conversationId node assessment).trans ?_
  refine .trans (judge_evolves _ conversationId node assessment
    ((engine.usedKeys conversationId node assessment).engine.isAuthentic store conversationId
      node)) ?_
  refine commit_evolves _ store conversationId node nowMs _ _ _ _ fun hauthentic => ?_
  exact hvoucher (engine.isAuthentic_usedKeys store conversationId node assessment ▸ hauthentic)

theorem evaluateNode_evolves
    (hvoucher : engine.authenticationHolds store conversationId node = true →
      voucher conversationId node) :
    Evolves voucher engine
      (engine.evaluateNode store conversationId node nowMs).2 := by
  have hlooked : Looked engine (engine.vet store conversationId node nowMs).2 := vet_looked
  unfold evaluateNode
  split
  next heq => exact .of_eq heq (engine.vet_evolves store conversationId node nowMs)
  next assessment looked heq =>
    refine .trans (.of_eq heq (engine.vet_evolves store conversationId node nowMs)) ?_
    rw [heq] at hlooked
    refine looked.conclude_evolves store conversationId node nowMs assessment fun hauthentic => ?_
    obtain ⟨distances, ancestors, searches, paths, equivocations, rfl⟩ := hlooked
    exact hvoucher ((vet_ok heq).authentic hauthentic)

end Engine

/-! ## Runs -/

/-- A step of a run: a node is evaluated, or the engine evolves without a voucher while
no node is evaluated. -/
inductive RunStep [Primitives] : World → World → Prop
  | evaluate (world : World) (conversationId : ConversationId) (node : MerkleNode)
      (nowMs : Int) : RunStep world (world.evaluate conversationId node nowMs).2
  | quiet {world world' : World}
      (hevolves : ∀ voucher, Evolves voucher world.engine world'.engine)
      (hevaluations : world'.evaluations = world.evaluations) : RunStep world world'

abbrev RunSteps [Primitives] (world world' : World) : Prop := ReflTransGen RunStep world world'

namespace World

variable [Primitives] (world : World) (conversationId : ConversationId) (nowMs : Int)

/-- A change of store, cache and emitted effects only. -/
theorem quiet_of_same {world world' : World}
    (hidentity : world'.engine.identityManager = world.engine.identityManager)
    (hconversations : world'.engine.conversations = world.engine.conversations)
    (hevaluations : world'.evaluations = world.evaluations)
    (hself : world'.engine.selfView = world.engine.selfView) : RunStep world world' :=
  .quiet (fun _ => .of_same hidentity hconversations hself) hevaluations

theorem finish_step (result : Except MerkleToxError (List Effect)) :
    RunStep world (world.finish result) := by
  cases result with
  | error error | ok effects => exact quiet_of_same rfl rfl rfl rfl

theorem call_steps {outcome : Outcome}
    (hevolves : ∀ voucher, Evolves voucher world.engine outcome.2) :
    RunSteps world (world.call outcome) := by
  have hcall : RunStep world (world.withEngine outcome.2) := .quiet hevolves rfl
  exact .head hcall (.single (finish_step _ outcome.1))

theorem steps_of_handling {before after : World} {effects : List Effect}
    (h : Handling nowMs before effects after) : RunSteps before after := by
  induction h with
  | refl => exact .refl
  | evaluate conversationId node _ _ ih
  | forget conversationId node _ _ _ ih => exact ih.tail (.evaluate _ conversationId node nowMs)
  | report _ _ ih => exact ih
  | note _ _ ih | hold _ _ _ ih | drop _ _ ih => exact ih.tail (quiet_of_same rfl rfl rfl rfl)

variable [WireCodec]

theorem handleNode_steps (node : MerkleNode) (fuel : Nat) :
    RunSteps world (world.handleNode conversationId node nowMs fuel).2 := by
  have hclear : RunStep world (world.withEngine world.engine.clearPending) :=
    quiet_of_same rfl rfl rfl rfl
  exact .head hclear
    (steps_of_handling nowMs (world.handleNode_kept conversationId nowMs node fuel).handling)

/-- Every command is a sequence of such steps. -/
theorem step_steps (command : Command) : RunSteps world (world.step command) := by
  cases command with
  | handleNode conversationId node nowMs fuel =>
      exact (world.handleNode_steps conversationId nowMs node fuel).trans
        (.single (finish_step _ _))
  | authorNode conversationId content metadata nowMs =>
      exact world.call_steps fun _ =>
        world.engine.authorNode_evolves world.store conversationId nowMs content metadata
  | rotateConversationKey conversationId nowMs =>
      exact world.call_steps fun _ =>
        world.engine.rotateConversationKey_evolves world.store conversationId nowMs false
  | senderRekey conversationId nowMs =>
      exact world.call_steps fun _ =>
        world.engine.senderRekey_evolves world.store conversationId nowMs
  | storeWire conversationId nodeHash wire =>
      exact .single (world.finish_step (.ok [.writeWireNode conversationId nodeHash wire]))

theorem run_append (first second : List Command) :
    world.run (first ++ second) = (world.run first).run second :=
  runFrom_append world first second

theorem run_steps (commands : List Command) : RunSteps world (world.run commands) := by
  induction commands generalizing world with
  | nil => exact .refl
  | cons command rest ih => exact (world.step_steps command).trans (ih _)

end World

section Invariants

variable [Primitives] {world world' : World}

/-- The node was evaluated while its authentication held. -/
def World.Voucher (world : World) (conversationId : ConversationId) (node : MerkleNode) : Prop :=
  ∃ evaluation ∈ world.evaluations, evaluation.conversationId = conversationId ∧
    evaluation.node = node ∧ evaluation.before.authenticationHolds evaluation.store
      evaluation.conversationId evaluation.node = true

/-- Over any steps the engine evolves with the nodes evaluated so far as vouchers, and
evaluations are only added. -/
theorem RunSteps.evolves (hsteps : RunSteps world world') :
    world.evaluations <+: world'.evaluations ∧
      Evolves world'.Voucher world.engine world'.engine := by
  induction hsteps with
  | refl => exact ⟨List.prefix_rfl, .refl _⟩
  | @tail middle after _ hstep ih =>
      obtain ⟨hextends, hevolves⟩ := ih
      cases hstep with
      | evaluate conversationId node nowMs =>
          have hmono : Evolves (middle.evaluate conversationId node nowMs).2.Voucher world.engine
              middle.engine := hevolves.mono fun _ _ ⟨evaluation, hmem, hvouches⟩ =>
            ⟨evaluation, List.mem_append_left _ hmem, hvouches⟩
          refine ⟨hextends.trans (List.prefix_append _ _), hmono.trans ?_⟩
          refine middle.engine.evaluateNode_evolves middle.store conversationId node nowMs ?_
          intro hauthentic
          exact ⟨_, List.mem_append_right _ List.mem_cons_self, rfl, rfl, hauthentic⟩
      | quiet hquiet heq =>
          have hsame : after.Voucher = middle.Voucher := by
            unfold World.Voucher
            rw [heq]
          rw [heq, hsame]
          exact ⟨hextends, hevolves.trans (hquiet _)⟩

/-- The engine has evolved from what it was before any of the evaluations. -/
theorem RunSteps.evolves_evaluation (hsteps : RunSteps world world')
    (hinit : ∀ evaluation ∈ world.evaluations,
      Evolves (fun _ _ => True) evaluation.before world.engine) :
    ∀ evaluation ∈ world'.evaluations,
      Evolves (fun _ _ => True) evaluation.before world'.engine := by
  induction hsteps with
  | refl => exact hinit
  | @tail middle _ _ hstep ih =>
      cases hstep with
      | evaluate conversationId node nowMs =>
          have hevolves : Evolves (fun _ _ => True) middle.engine _ :=
            middle.engine.evaluateNode_evolves middle.store conversationId node nowMs
              fun _ => trivial
          intro evaluation hmem
          rcases List.mem_append.mp hmem with hmem | hmem
          · exact (ih evaluation hmem).trans hevolves
          · rw [List.mem_singleton.mp hmem]
            exact hevolves
      | quiet hquiet heq =>
          rw [heq]
          exact fun evaluation hmem => (ih evaluation hmem).trans (hquiet _)

/-- An entry of the history of evaluations records what its evaluation did. -/
def Evaluation.Coherent (evaluation : Evaluation) : Prop :=
  evaluation.before.evaluateNode evaluation.store evaluation.conversationId evaluation.node
    evaluation.nowMs = (evaluation.result, evaluation.after)

theorem RunSteps.coherent (hsteps : RunSteps world world')
    (hinit : ∀ evaluation ∈ world.evaluations, evaluation.Coherent) :
    ∀ evaluation ∈ world'.evaluations, evaluation.Coherent := by
  induction hsteps with
  | refl => exact hinit
  | @tail middle _ _ hstep ih =>
      cases hstep with
      | evaluate conversationId node nowMs =>
          intro evaluation hmem
          rcases List.mem_append.mp hmem with hmem | hmem
          · exact ih evaluation hmem
          · rw [List.mem_singleton.mp hmem]
            exact rfl
      | quiet _ heq =>
          rw [heq]
          exact ih

/-- What holds of the first engine and is kept by every evolution holds before and
after every evaluation. -/
theorem RunSteps.invariant (inv : Engine → Prop)
    (hkept : ∀ {voucher before after}, Evolves voucher before after → inv before → inv after)
    (hsteps : RunSteps world world') (hinit : inv world.engine)
    (hevaluations : ∀ evaluation ∈ world.evaluations, inv evaluation.before) :
    inv world'.engine ∧ ∀ evaluation ∈ world'.evaluations, inv evaluation.before := by
  induction hsteps with
  | refl => exact ⟨hinit, hevaluations⟩
  | @tail middle _ _ hstep ih =>
      obtain ⟨hengine, hold⟩ := ih
      cases hstep with
      | evaluate conversationId node nowMs =>
          have hevolves : Evolves (fun _ _ => True) middle.engine _ :=
            middle.engine.evaluateNode_evolves middle.store conversationId node nowMs
              fun _ => trivial
          refine ⟨hkept hevolves hengine, ?_⟩
          intro evaluation hmem
          rcases List.mem_append.mp hmem with hmem | hmem
          · exact hold evaluation hmem
          · rw [List.mem_singleton.mp hmem]
            exact hengine
      | quiet hquiet heq =>
          refine ⟨hkept (hquiet fun _ _ => True) hengine, ?_⟩
          rw [heq]
          exact hold

end Invariants

end MerkleTox.Core
