import MerkleTox.Reconcile.Session

/-! # No hash is lost between the queues

A hash that a session misses stays in one of its queues or in flight until the node comes in,
and a batch asks only for hashes that are not in flight.
-/

namespace MerkleTox.Reconcile

open MerkleTox.Core Library

variable {hasBlob : Option (NodeHash → Bool)} {events : List SessionEvent}

/-- Between two states of a session the queues only grow, the hot and the cold one stay apart
and what is in flight stays. -/
structure Grows (before after : SessionCommon) : Prop where
  hot : before.missingNodesHot ⊆ after.missingNodesHot
  cold : before.missingNodesCold ⊆ after.missingNodesCold
  inFlight : after.inFlightFetches = before.inFlightFetches
  apart : before.missingNodesHot.Disjoint before.missingNodesCold →
    after.missingNodesHot.Disjoint after.missingNodesCold

namespace Grows

variable {before between after : SessionCommon}

theorem refl (session : SessionCommon) : Grows session session :=
  ⟨List.Subset.refl _, List.Subset.refl _, rfl, fun hapart => hapart⟩

theorem trans (hfirst : Grows before between) (hsecond : Grows between after) :
    Grows before after where
  hot := List.Subset.trans hfirst.hot hsecond.hot
  cold := List.Subset.trans hfirst.cold hsecond.cold
  inFlight := hsecond.inFlight.trans hfirst.inFlight
  apart := fun hapart => hsecond.apart (hfirst.apart hapart)

theorem foldl {α : Type} {f : SessionCommon → α → SessionCommon}
    (hstep : ∀ session element, Grows session (f session element)) (list : List α)
    (session : SessionCommon) : Grows session (list.foldl f session) := by
  induction list generalizing session with
  | nil => exact refl session
  | cons element rest ih => exact (hstep session element).trans (ih _)

theorem foldlM {α : Type} {f : SessionCommon → α → Option SessionCommon}
    (hstep : ∀ session element next, f session element = some next → Grows session next)
    (list : List α) (hfold : list.foldlM f before = some after) : Grows before after := by
  induction list generalizing before with
  | nil =>
      cases hfold
      exact refl _
  | cons element rest ih =>
      rw [List.foldlM_cons] at hfold
      obtain ⟨next, hnext, hrest⟩ := Option.bind_eq_some_iff.mp hfold
      exact (hstep before element next hnext).trans (ih hrest)

end Grows

section Queues

variable {session : SessionCommon} {nodeHash : NodeHash}

theorem isNew_iff : session.isNew nodeHash = true ↔ nodeHash ∉ session.missingNodesHot ∧
    nodeHash ∉ session.missingNodesCold ∧ nodeHash ∉ session.inFlightFetches := by
  simp [SessionCommon.isNew, and_assoc]

section

variable (hnew : session.isNew nodeHash = true)
include hnew

/-- A new hash may be put anywhere in the hot queue. -/
theorem grows_hot {queue : List NodeHash}
    (hqueue : ∀ other, other ∈ queue ↔ other ∈ session.missingNodesHot ∨ other = nodeHash) :
    Grows session { session with missingNodesHot := queue } where
  hot := fun other hmem => (hqueue other).mpr (.inl hmem)
  cold := List.Subset.refl _
  inFlight := rfl
  apart := by
    intro hapart other hhot hcold
    rcases (hqueue other).mp hhot with hhot | rfl
    · exact hapart hhot hcold
    · exact (isNew_iff.mp hnew).2.1 hcold

theorem grows_push :
    Grows session { session with missingNodesHot := session.missingNodesHot ++ [nodeHash] } :=
  grows_hot hnew fun other => by rw [List.mem_append, List.mem_singleton]

theorem grows_pushFront :
    Grows session { session with missingNodesHot := nodeHash :: session.missingNodesHot } :=
  grows_hot hnew fun other => by rw [List.mem_cons, or_comm]

theorem grows_cold :
    Grows session { session with missingNodesCold := session.missingNodesCold ++ [nodeHash] } where
  hot := List.Subset.refl _
  cold := List.subset_append_left _ _
  inFlight := rfl
  apart := by
    intro hapart other hhot hcold
    rcases List.mem_append.mp hcold with hcold | hcold
    · exact hapart hhot hcold
    · rw [List.mem_singleton.mp hcold] at hhot
      exact (isNew_iff.mp hnew).1 hhot

end

theorem grows_missHot (hasNode : NodeHash → Bool) (session : SessionCommon)
    (nodeHash : NodeHash) : Grows session (missHot hasNode session nodeHash) := by
  unfold missHot
  split
  next hmissing => exact grows_push (Bool.and_eq_true_iff.mp hmissing).2
  next => exact .refl session

theorem grows_enqueueMissing {hintRank : Option Nat} {store : InMemoryStore}
    {next : SessionCommon} (hok : session.enqueueMissing nodeHash hintRank store = some next) :
    Grows session next := by
  unfold SessionCommon.enqueueMissing at hok
  split at hok
  · cases hok
    exact .refl session
  next hnew =>
    rw [Bool.not_eq_true', Bool.not_eq_false] at hnew
    cases hintRank with
    | none =>
        cases hok
        exact grows_push hnew
    | some rank =>
        obtain ⟨reached, -, hqueued⟩ := Option.bind_eq_some_iff.mp hok
        simp only [pure, bind, Option.bind] at hqueued
        split at hqueued
        · cases hqueued
          exact grows_push hnew
        · cases hqueued
          exact grows_cold hnew

variable {node : MerkleNode} {store : InMemoryStore}

theorem grows_missParent {parent : NodeHash} {next : SessionCommon}
    (hok : session.missParent node store parent = some next) : Grows session next := by
  unfold SessionCommon.missParent at hok
  split at hok
  · cases hok
    exact .refl session
  next hmissing =>
    rw [Bool.or_eq_true, Bool.not_eq_true', not_or, Bool.not_eq_false] at hmissing
    split at hok
    · cases hok
      exact grows_pushFront hmissing.2
    · exact grows_enqueueMissing hok

theorem grows_missParentEarly (node : MerkleNode) (store : InMemoryStore)
    (session : SessionCommon) (parent : NodeHash) :
    Grows session (session.missParentEarly node store parent) := by
  unfold SessionCommon.missParentEarly
  split
  · exact .refl session
  next hmissing =>
    rw [Bool.or_eq_true, Bool.not_eq_true', not_or, Bool.not_eq_false] at hmissing
    split
    · exact grows_pushFront hmissing.2
    · exact grows_push hmissing.2

end Queues

/-! ## What each event does -/

section Arrivals

variable {session after : SessionCommon} {node : MerkleNode} {store : InMemoryStore}

/-- The session once the fetch of a hash is answered. -/
def arrived (session : SessionCommon) (nodeHash : NodeHash) : SessionCommon :=
  { session with inFlightFetches := session.inFlightFetches.erase nodeHash }

/-- Only the queues and what is in flight matter. -/
theorem Grows.congr {before same : SessionCommon} (hgrows : Grows same after)
    (hhot : same.missingNodesHot = before.missingNodesHot)
    (hcold : same.missingNodesCold = before.missingNodesCold)
    (hflight : same.inFlightFetches = before.inFlightFetches) : Grows before after where
  hot := hhot ▸ hgrows.hot
  cold := hcold ▸ hgrows.cold
  inFlight := hgrows.inFlight.trans hflight
  apart := fun hapart => hgrows.apart (by rw [hhot, hcold]; exact hapart)

theorem missBlob_grows (session : SessionCommon) (node : MerkleNode)
    (hasBlob : Option (NodeHash → Bool)) : Grows session (session.missBlob node hasBlob) := by
  unfold SessionCommon.missBlob
  split
  · split
    · exact .refl session
    · exact ⟨List.Subset.refl _, List.Subset.refl _, rfl, fun hapart => hapart⟩
  · exact .refl session

theorem countBackfill_grows (session : SessionCommon) (node : MerkleNode) :
    Grows session (session.countBackfill node) := by
  unfold SessionCommon.countBackfill
  split
  · exact ⟨List.Subset.refl _, List.Subset.refl _, rfl, fun hapart => hapart⟩
  · exact .refl session

variable [Primitives]

theorem moveHeads_grows (session : SessionCommon) (node : MerkleNode) (store : InMemoryStore) :
    Grows (arrived session (Core.hash node)) (session.moveHeads node store) :=
  ⟨List.Subset.refl _, List.Subset.refl _, rfl, fun hapart => hapart⟩

theorem onNodeReceived_grows
    (hok : PeerSession.onNodeReceived node store hasBlob (.active session) = some (.active after)) :
    Grows (arrived session (Core.hash node)) after := by
  have hstart := (moveHeads_grows session node store).trans
    (missBlob_grows (session.moveHeads node store) node hasBlob)
  unfold PeerSession.onNodeReceived at hok
  simp only at hok
  split at hok
  · cases hok
    exact hstart
  · have hcounted := hstart.trans (countBackfill_grows _ node)
    split at hok
    · cases hok
      exact hcounted
    · rw [Option.map_eq_some_iff] at hok
      obtain ⟨common, hparents, heq⟩ := hok
      cases heq
      exact hcounted.trans (Grows.foldlM (fun _ _ _ => grows_missParent) node.parents hparents)

end Arrivals

namespace ActiveSession

/-- The hash is queued or in flight. -/
def Waiting (session : ActiveSession) (nodeHash : NodeHash) : Prop :=
  nodeHash ∈ session.missingAdminNodes ∨ nodeHash ∈ session.missingNodesHot ∨
    nodeHash ∈ session.missingNodesCold ∨ nodeHash ∈ session.inFlightFetches

/-- The hot and the cold queue are apart, and what is in flight is so once. -/
structure Orderly (session : ActiveSession) : Prop where
  apart : session.missingNodesHot.Disjoint session.missingNodesCold
  inFlight : session.inFlightFetches.Nodup

variable {session next : ActiveSession} {nodeHash : NodeHash}

/-- What an event other than a batch does: the fetch of a hash may be answered, and then the
queues only grow. -/
structure Advances (session next : ActiveSession) (answered : Option NodeHash) : Prop where
  admin : session.missingAdminNodes ⊆ next.missingAdminNodes
  grows : Grows (answered.elim session.toSessionCommon (arrived session.toSessionCommon))
    next.toSessionCommon

theorem Advances.orderly {answered : Option NodeHash} (hadvances : Advances session next answered)
    (horderly : session.Orderly) : next.Orderly := by
  cases answered with
  | none =>
      exact ⟨hadvances.grows.apart horderly.apart, hadvances.grows.inFlight ▸ horderly.inFlight⟩
  | some received =>
      exact ⟨hadvances.grows.apart horderly.apart,
        hadvances.grows.inFlight ▸ horderly.inFlight.erase received⟩

theorem Advances.waiting {answered : Option NodeHash} (hadvances : Advances session next answered)
    (hother : answered ≠ some nodeHash) (hwaiting : session.Waiting nodeHash) :
    next.Waiting nodeHash := by
  have hflight : nodeHash ∈ session.inFlightFetches → nodeHash ∈ next.inFlightFetches := by
    intro hmem
    rw [hadvances.grows.inFlight]
    cases answered with
    | none => exact hmem
    | some received =>
        exact (List.mem_erase_of_ne fun heq => hother (congrArg some heq.symm)).mpr hmem
  have hhot : session.missingNodesHot ⊆ next.missingNodesHot := by
    have hgrows := hadvances.grows.hot
    cases answered <;> exact hgrows
  have hcold : session.missingNodesCold ⊆ next.missingNodesCold := by
    have hgrows := hadvances.grows.cold
    cases answered <;> exact hgrows
  rcases hwaiting with hmem | hmem | hmem | hmem
  · exact .inl (hadvances.admin hmem)
  · exact .inr (.inl (hhot hmem))
  · exact .inr (.inr (.inl (hcold hmem)))
  · exact .inr (.inr (.inr (hflight hmem)))

/-- What `drain` moves from the queue to the batch is new, without repetition and within the
bound; what it takes from the queue is in flight afterwards. -/
theorem drain_spec (batchSize : Nat) (queue inFlight hashes : List NodeHash) :
    ∃ taken dropped, (drain batchSize queue inFlight hashes).2.1 = inFlight ++ taken ∧
      (drain batchSize queue inFlight hashes).2.2 = hashes ++ taken ∧
      queue = dropped ++ (drain batchSize queue inFlight hashes).1 ∧ taken.Nodup ∧
      (∀ nodeHash ∈ taken, nodeHash ∉ inFlight ∧ nodeHash ∈ queue) ∧
      (∀ nodeHash ∈ dropped, nodeHash ∈ inFlight ++ taken) ∧
      (hashes.length ≤ batchSize → (hashes ++ taken).length ≤ batchSize) := by
  -- By induction on the queue: a hash in flight is dropped, another one is taken while there is
  -- room.
  induction queue generalizing inFlight hashes with
  | nil =>
      refine ⟨[], [], ?_, ?_, rfl, List.nodup_nil, ?_, ?_, ?_⟩ <;> simp [drain]
  | cons nodeHash rest ih =>
      unfold drain
      split
      next hroom =>
        split
        next hflight =>
          obtain ⟨taken, dropped, hinFlight, hhashes, hqueue, hnodup, htaken, hdropped, hbound⟩ :=
            ih inFlight hashes
          refine ⟨taken, nodeHash :: dropped, hinFlight, hhashes, ?_, hnodup, ?_, ?_, hbound⟩
          · rw [List.cons_append, ← hqueue]
          · intro other hmem
            exact ⟨(htaken other hmem).1, List.mem_cons_of_mem _ (htaken other hmem).2⟩
          · intro other hmem
            rcases List.mem_cons.mp hmem with rfl | hmem
            · exact List.mem_append_left _ (List.contains_iff_mem.mp hflight)
            · exact hdropped other hmem
        next hflight =>
          obtain ⟨taken, dropped, hinFlight, hhashes, hqueue, hnodup, htaken, hdropped, hbound⟩ :=
            ih (inFlight ++ [nodeHash]) (hashes ++ [nodeHash])
          rw [List.append_assoc, List.singleton_append] at hinFlight hhashes
          have hfresh : nodeHash ∉ taken := fun hmem =>
            (htaken nodeHash hmem).1 (List.mem_append_right _ List.mem_cons_self)
          refine ⟨nodeHash :: taken, nodeHash :: dropped, hinFlight, hhashes, ?_,
            List.nodup_cons.mpr ⟨hfresh, hnodup⟩, ?_, ?_, fun _ => ?_⟩
          · rw [List.cons_append, ← hqueue]
          · intro other hmem
            rcases List.mem_cons.mp hmem with rfl | hmem
            · exact ⟨fun hmem => hflight (List.contains_iff_mem.mpr hmem), List.mem_cons_self⟩
            · exact ⟨fun hin => (htaken other hmem).1 (List.mem_append_left _ hin),
                List.mem_cons_of_mem _ (htaken other hmem).2⟩
          · intro other hmem
            rcases List.mem_cons.mp hmem with rfl | hmem
            · simp
            · have hin := hdropped other hmem
              rwa [List.append_assoc, List.singleton_append] at hin
          · have hlength := hbound (by rw [List.length_append]; exact hroom)
            rwa [List.append_assoc, List.singleton_append] at hlength
      next =>
        refine ⟨[], [], ?_, ?_, rfl, List.nodup_nil, ?_, ?_, ?_⟩ <;> simp

/-- A batch moves hashes from the queues to those in flight. -/
theorem nextFetchBatch_spec (session : ActiveSession) (batchSize : Nat) :
    ∃ taken : List NodeHash,
      (session.nextFetchBatch batchSize).1 =
        (if taken.isEmpty then none else some ⟨session.conversationId, taken⟩) ∧
      (session.nextFetchBatch batchSize).2.inFlightFetches = session.inFlightFetches ++ taken ∧
      taken.Nodup ∧ taken.length ≤ batchSize ∧
      (∀ nodeHash ∈ taken, nodeHash ∉ session.inFlightFetches ∧ session.Waiting nodeHash) ∧
      (session.nextFetchBatch batchSize).2.missingNodesHot ⊆ session.missingNodesHot ∧
      (session.nextFetchBatch batchSize).2.missingNodesCold ⊆ session.missingNodesCold ∧
      ∀ nodeHash, session.Waiting nodeHash →
        (session.nextFetchBatch batchSize).2.Waiting nodeHash := by
  -- The queues are drained in turn, each from where the one before left the batch.
  obtain ⟨admin, droppedAdmin, hflightA, hhashesA, hqueueA, hnodupA, htakenA, hdroppedA, hboundA⟩ :=
    drain_spec batchSize session.missingAdminNodes session.inFlightFetches []
  rcases hdrainA : drain batchSize session.missingAdminNodes session.inFlightFetches [] with
    ⟨restA, flightA, hashesA⟩
  simp only [hdrainA, List.nil_append] at hflightA hhashesA hqueueA hboundA
  subst hflightA hhashesA
  obtain ⟨hot, droppedHot, hflightH, hhashesH, hqueueH, hnodupH, htakenH, hdroppedH, hboundH⟩ :=
    drain_spec batchSize session.missingNodesHot (session.inFlightFetches ++ hashesA) hashesA
  rcases hdrainH : drain batchSize session.missingNodesHot
    (session.inFlightFetches ++ hashesA) hashesA with ⟨restH, flightH, hashesH⟩
  simp only [hdrainH] at hflightH hhashesH hqueueH
  subst hflightH hhashesH
  obtain ⟨cold, droppedC, hflightC, hhashesC, hqueueC, hnodupC, htakenC, hdroppedC, hboundC⟩ :=
    drain_spec batchSize session.missingNodesCold (session.inFlightFetches ++ hashesA ++ hot)
      (hashesA ++ hot)
  rcases hdrainC : drain batchSize session.missingNodesCold
    (session.inFlightFetches ++ hashesA ++ hot) (hashesA ++ hot) with ⟨restC, flightC, hashesC⟩
  simp only [hdrainC] at hflightC hhashesC hqueueC
  subst hflightC hhashesC
  have hbatch : session.nextFetchBatch batchSize =
      (if (hashesA ++ hot ++ cold).isEmpty then none
        else some ⟨session.conversationId, hashesA ++ hot ++ cold⟩,
      { session with
          missingAdminNodes := restA
          missingNodesHot := restH
          missingNodesCold := restC
          inFlightFetches := session.inFlightFetches ++ hashesA ++ hot ++ cold }) := by
    unfold nextFetchBatch
    simp only [hdrainA, hdrainH, hdrainC]
  rw [hbatch]
  refine ⟨hashesA ++ hot ++ cold, rfl, ?_, ?_, ?_, ?_, ?_, ?_, ?_⟩
  · simp only [List.append_assoc]
  · rw [List.nodup_append, List.nodup_append]
    refine ⟨⟨hnodupA, hnodupH, ?_⟩, hnodupC, ?_⟩
    -- A hash that an earlier queue gave is in flight, so a later one does not give it again.
    · rintro first hfirst second hsecond rfl
      exact (htakenH first hsecond).1 (List.mem_append_right _ hfirst)
    · rintro first hfirst second hsecond rfl
      refine (htakenC first hsecond).1 ?_
      rw [List.append_assoc]
      exact List.mem_append_right _ hfirst
  · exact hboundC (hboundH (hboundA (Nat.zero_le _)))
  · intro nodeHash hmem
    rcases List.mem_append.mp hmem with hmem | hmem
    · rcases List.mem_append.mp hmem with hmem | hmem
      · exact ⟨(htakenA nodeHash hmem).1, .inl (htakenA nodeHash hmem).2⟩
      · exact ⟨fun hin => (htakenH nodeHash hmem).1 (List.mem_append_left _ hin),
          .inr (.inl (htakenH nodeHash hmem).2)⟩
    · exact ⟨fun hin => (htakenC nodeHash hmem).1
        (List.mem_append_left _ (List.mem_append_left _ hin)),
        .inr (.inr (.inl (htakenC nodeHash hmem).2))⟩
  · simp only [hqueueH]
    exact List.subset_append_right _ _
  · simp only [hqueueC]
    exact List.subset_append_right _ _
  -- What a queue loses it either gave to the batch or dropped as being in flight.
  · rintro nodeHash (hmem | hmem | hmem | hmem)
    · rw [hqueueA] at hmem
      rcases List.mem_append.mp hmem with hmem | hmem
      · have hin := hdroppedA nodeHash hmem
        exact .inr (.inr (.inr (List.mem_append_left _ (List.mem_append_left _ hin))))
      · exact .inl hmem
    · rw [hqueueH] at hmem
      rcases List.mem_append.mp hmem with hmem | hmem
      · have hin := hdroppedH nodeHash hmem
        exact .inr (.inr (.inr (List.mem_append_left _ hin)))
      · exact .inr (.inl hmem)
    · rw [hqueueC] at hmem
      rcases List.mem_append.mp hmem with hmem | hmem
      · exact .inr (.inr (.inr (hdroppedC nodeHash hmem)))
      · exact .inr (.inr (.inl hmem))
    · exact .inr (.inr (.inr (List.mem_append_left _ (List.mem_append_left _
        (List.mem_append_left _ hmem)))))

/-! ## Steps and runs -/

section Runs

variable [Primitives]

theorem onNodeReceived_advances {node : MerkleNode} {store : InMemoryStore}
    (hok : session.onNodeReceived node store hasBlob = some next) :
    Advances session next (some (Core.hash node)) := by
  unfold onNodeReceived at hok
  split at hok
  next common hreceived =>
    cases hok
    exact ⟨List.Subset.refl _, onNodeReceived_grows hreceived⟩
  next => cases hok

omit [Primitives] in
theorem onWireNodeReceived_advances (session : ActiveSession) (nodeHash : NodeHash)
    (wire : WireNode) (store : InMemoryStore) :
    Advances session (session.onWireNodeReceived nodeHash wire store) (some nodeHash) :=
  ⟨List.Subset.refl _, Grows.foldl (grows_missHot store.hasNode) wire.parents _⟩

omit [Primitives] in
theorem handleSyncHeads_advances (session : ActiveSession) (heads : SyncHeads)
    (overlay : Overlay) : Advances session (session.handleSyncHeads heads overlay) none := by
  unfold handleSyncHeads
  split
  · exact ⟨List.Subset.refl _, .refl _⟩
  · refine ⟨List.Subset.refl _, Grows.foldl (fun session head => ?_) heads.heads _⟩
    exact (grows_missHot overlay.hasNode
      { session with remoteHeads := insertOnce session.remoteHeads head } head).congr rfl rfl rfl

omit [Primitives] in
theorem promoteIbltTier_advances (session : ActiveSession) (range : SyncRange) :
    Advances session (session.promoteIbltTier range) none := by
  unfold promoteIbltTier
  split <;> exact ⟨List.Subset.refl _, .refl _⟩

theorem handleSyncSketch_advances [IbltHash] (session : ActiveSession) (sketch : SyncSketch)
    (overlay : Overlay) (kIblt : Option Bytes32) :
    Advances session (session.handleSyncSketchKeyed sketch overlay kIblt).2 none := by
  unfold handleSyncSketchKeyed
  split
  · exact ⟨List.Subset.refl _, .refl _⟩
  · simp only
    split
    · exact ⟨List.Subset.refl _, .refl _⟩
    · split
      · exact promoteIbltTier_advances session sketch.range
      · exact ⟨List.Subset.refl _, Grows.foldl (grows_missHot overlay.hasNode) _ _⟩

omit [Primitives] in
theorem onAdminGossip_advances (session : ActiveSession) (nodeHash : NodeHash)
    (overlay : Overlay) : Advances session (session.onAdminGossip nodeHash overlay) none := by
  unfold onAdminGossip
  split
  · exact ⟨List.subset_append_left _ _,
      ⟨List.Subset.refl _, List.Subset.refl _, rfl, fun hapart => hapart⟩⟩
  · exact ⟨List.Subset.refl _, .refl _⟩

variable [IbltHash]
variable (nodeHash) in
/-- An event keeps the queues in order and loses no hash that it does not deliver. -/
theorem step_keeps {event : SessionEvent} (hok : session.step event = some next) :
    (session.Orderly → next.Orderly) ∧
      (event.delivers nodeHash = false → session.Waiting nodeHash → next.Waiting nodeHash) := by
  -- Every event but a batch advances the session: its queues grow, and a hash leaves them only as
  -- the answer to a fetch.
  have hadvances : ∀ {answered : Option NodeHash}, Advances session next answered →
      (event.delivers nodeHash = false → answered ≠ some nodeHash) →
      (session.Orderly → next.Orderly) ∧
        (event.delivers nodeHash = false → session.Waiting nodeHash → next.Waiting nodeHash) :=
    fun hadvances hother =>
      ⟨hadvances.orderly, fun hdelivers => hadvances.waiting (hother hdelivers)⟩
  have hother : event.delivers nodeHash = false → (none : Option NodeHash) ≠ some nodeHash :=
    fun _ heq => nomatch heq
  cases event with
  | heads heads overlay =>
      cases hok
      exact hadvances (handleSyncHeads_advances session heads overlay) hother
  | sketch sketch overlay kIblt =>
      cases hok
      exact hadvances (handleSyncSketch_advances session sketch overlay kIblt) hother
  | reconFail range =>
      cases hok
      exact hadvances (promoteIbltTier_advances session range) hother
  | gossip gossiped overlay =>
      cases hok
      exact hadvances (onAdminGossip_advances session gossiped overlay) hother
  | node node store hasBlob =>
      refine hadvances (onNodeReceived_advances hok) fun hdelivers heq => ?_
      simp only [SessionEvent.delivers, decide_eq_false_iff_not] at hdelivers
      exact hdelivers (Option.some.inj heq)
  | wireNode received wire store =>
      cases hok
      refine hadvances (onWireNodeReceived_advances session received wire store) ?_
      intro hdelivers heq
      simp only [SessionEvent.delivers, decide_eq_false_iff_not] at hdelivers
      exact hdelivers (Option.some.inj heq)
  | batch batchSize =>
      cases hok
      obtain ⟨taken, -, hflight, hnodup, -, htaken, hhot, hcold, hwaiting⟩ :=
        session.nextFetchBatch_spec batchSize
      refine ⟨fun horderly => ⟨fun other hmem hin => ?_, ?_⟩, fun _ => hwaiting nodeHash⟩
      · exact horderly.apart (hhot hmem) (hcold hin)
      · rw [hflight, List.nodup_append]
        refine ⟨horderly.inFlight, hnodup, ?_⟩
        rintro first hfirst second hsecond rfl
        exact (htaken first hsecond).1 hfirst

theorem run_orderly (horderly : session.Orderly) (hrun : session.run events = some next) :
    next.Orderly := by
  induction events generalizing session with
  | nil =>
      cases hrun
      exact horderly
  | cons event rest ih =>
      obtain ⟨between, hstep, hrest⟩ := Option.bind_eq_some_iff.mp hrun
      exact ih ((step_keeps .zero hstep).1 horderly) hrest

theorem run_waiting (hwaiting : session.Waiting nodeHash) (hrun : session.run events = some next)
    (hmissed : ∀ event ∈ events, event.delivers nodeHash = false) : next.Waiting nodeHash := by
  induction events generalizing session with
  | nil =>
      cases hrun
      exact hwaiting
  | cons event rest ih =>
      obtain ⟨between, hstep, hrest⟩ := Option.bind_eq_some_iff.mp hrun
      exact ih ((step_keeps nodeHash hstep).2 (hmissed event List.mem_cons_self) hwaiting) hrest
        fun other hmem => hmissed other (List.mem_cons_of_mem _ hmem)

omit [IbltHash] in
theorem orderly_openSession (conversationId : ConversationId) (localHeads : List NodeHash)
    (shallow : Bool) (minRank : Nat) (minTimestamp : Int) (maxBackfillNodes : Nat)
    (early : List (MerkleNode × InMemoryStore)) :
    (openSession conversationId
      (newSession localHeads shallow minRank minTimestamp maxBackfillNodes) early).Orderly := by
  have hearly : ∀ (early : List (MerkleNode × InMemoryStore)) (session : SessionCommon),
      session.missingNodesHot.Disjoint session.missingNodesCold → session.inFlightFetches.Nodup →
      (activate conversationId (early.foldl (fun session entry =>
        entry.1.parents.foldl (SessionCommon.missParentEarly entry.1 entry.2)
          (session.moveHeads entry.1 entry.2)) session)).Orderly := by
    intro early
    induction early with
    | nil => exact fun session hapart hflight => ⟨hapart, hflight⟩
    | cons entry rest ih =>
        intro session hapart hflight
        have hgrows := (moveHeads_grows session entry.1 entry.2).trans
          (Grows.foldl (grows_missParentEarly entry.1 entry.2) entry.1.parents _)
        refine ih _ (hgrows.apart hapart) ?_
        rw [hgrows.inFlight]
        exact hflight.erase _
  exact hearly early _ (List.disjoint_nil_left _) List.nodup_nil

end Runs

end ActiveSession

/-- In every state that a session reaches, a batch asks for each of its hashes once, for none
that is in flight and for no more than allowed; a hash in a queue stays queued or in flight
through any run that does not deliver it; and no hash is both hot and cold. -/
theorem fetchQueue_discipline [Primitives] [IbltHash] (conversationId : ConversationId)
    (localHeads : List NodeHash) (shallow : Bool) (minRank : Nat) (minTimestamp : Int)
    (maxBackfillNodes : Nat) (early : List (MerkleNode × InMemoryStore))
    (events : List SessionEvent) (session : ActiveSession)
    (hrun : (openSession conversationId
      (newSession localHeads shallow minRank minTimestamp maxBackfillNodes) early).run events =
        some session) :
    (∀ batchSize req, (session.nextFetchBatch batchSize).1 = some req →
      req.hashes.Nodup ∧ req.hashes.length ≤ batchSize ∧ ∀ nodeHash ∈ req.hashes,
        nodeHash ∉ session.inFlightFetches ∧
          nodeHash ∈ (session.nextFetchBatch batchSize).2.inFlightFetches) ∧
      (∀ nodeHash, session.Waiting nodeHash → ∀ later after, session.run later = some after →
        (∀ event ∈ later, event.delivers nodeHash = false) → after.Waiting nodeHash) ∧
      session.missingNodesHot.Disjoint session.missingNodesCold ∧
      session.inFlightFetches.Nodup := by
  have horderly := ActiveSession.run_orderly (ActiveSession.orderly_openSession conversationId
    localHeads shallow minRank minTimestamp maxBackfillNodes early) hrun
  refine ⟨fun batchSize req hreq => ?_, fun nodeHash hwaiting later after hlater hmissed =>
    ActiveSession.run_waiting hwaiting hlater hmissed, horderly.apart, horderly.inFlight⟩
  obtain ⟨taken, hbatch, hflight, hnodup, hbound, htaken, -⟩ :=
    session.nextFetchBatch_spec batchSize
  rw [hbatch] at hreq
  split at hreq
  · cases hreq
  · cases hreq
    refine ⟨hnodup, hbound, fun nodeHash hmem => ⟨(htaken nodeHash hmem).1, ?_⟩⟩
    rw [hflight]
    exact List.mem_append_right _ hmem

namespace Reference

open MerkleTox.Core.Reference (room)

/-- Two heads and an admin node are missing, and the first two are asked for. -/
def missed : List SessionEvent :=
  [.heads ⟨room, [⟨11⟩, ⟨12⟩], none⟩ ⟨.new, .new⟩, .gossip ⟨13⟩ ⟨.new, .new⟩, .batch 2]

/-- The session after these events. -/
def asking : ActiveSession :=
  ((openSession room (newSession [] false 0 0 0) []).run missed).getD
    (.activate room (newSession [] false 0 0 0))

theorem fetchQueue_discipline_asking :
    (∀ batchSize req, (asking.nextFetchBatch batchSize).1 = some req →
      req.hashes.Nodup ∧ req.hashes.length ≤ batchSize ∧ ∀ nodeHash ∈ req.hashes,
        nodeHash ∉ asking.inFlightFetches ∧
          nodeHash ∈ (asking.nextFetchBatch batchSize).2.inFlightFetches) ∧
      (∀ nodeHash, asking.Waiting nodeHash → ∀ later after, asking.run later = some after →
        (∀ event ∈ later, event.delivers nodeHash = false) → after.Waiting nodeHash) ∧
      asking.missingNodesHot.Disjoint asking.missingNodesCold ∧ asking.inFlightFetches.Nodup :=
  fetchQueue_discipline room [] false 0 0 0 [] missed asking rfl

example : asking.inFlightFetches = [⟨13⟩, ⟨11⟩] ∧ asking.missingNodesHot = [⟨12⟩] := by
  decide +kernel

end Reference

end MerkleTox.Reconcile
