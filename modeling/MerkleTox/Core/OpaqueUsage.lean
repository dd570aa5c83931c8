import MerkleTox.Core.Arithmetic
import MerkleTox.Core.OnceApplied
import MerkleTox.Library.Ledger

/-! # The usage of the opaque store

The handler of `MerkleNode` messages: the wire form is stored as it arrives, and if it does
not unpack, an entry of `opaque_store_usage` tracks its size. Over the quota the handler
evicts entries, those with the lowest ranks first. Re-verification removes the entry of each
wire form that it takes out of the store, which it tells by the same effect; the promotion
locks that it holds meanwhile are gone when it returns.

The sessions are left out but for the question whether the one with the sender is active. Each
conversation has a store of its own, as in the stores that keep conversations apart.
-/

namespace MerkleTox.Core

open Library Proto

/-- `tox_proto::constants::OPAQUE_STORE_QUOTA`. -/
def opaqueStoreQuota : Nat := 100 * 1024 * 1024

/-- `tox_proto::constants::MAX_OPAQUE_REQUESTS_PER_VOUCHER`. -/
def maxOpaqueRequestsPerVoucher : Nat := 500

structure OpaqueEntry where
  hash : NodeHash
  size : Nat
  arrivedMs : Int
  senderPk : PhysicalDevicePk
  deriving DecidableEq, Repr

abbrev OpaqueUsage := AssocMap ConversationId (Ledger OpaqueEntry)

namespace WireNode

def isEncrypted (wire : WireNode) : Bool := wire.flags &&& 2 ≠ 0

def wireSize (wire : WireNode) : Nat :=
  wire.payloadData.length + wire.encryptedRouting.length + wire.parents.length * 32

end WireNode

/-- The cleartext wire forms: `unpack_wire_exception`. -/
class ExceptionCodec where
  unpackException : WireNode → Option MerkleNode

/-! ## Eviction -/

section Eviction

variable (store : InMemoryStore) (conversationId : ConversationId)

namespace InMemoryStore

def getRank (nodeHash : NodeHash) : Option Nat :=
  (store.getNode nodeHash).map MerkleNode.topologicalRank

/-- Ranks below this one are cold. -/
def hotCutoff : Nat :=
  ((((store.heads.get conversationId).getD []).filterMap store.getRank).max?.getD 0) -
    hotWindowRanks

end InMemoryStore

/-- Locked entries come last; before them cold entries come before hot ones, and lower ranks
before higher ones. -/
def evictionOrder (cutoff : Nat) (locked : List NodeHash) (first second : OpaqueEntry) : Ordering :=
  match locked.contains first.hash, locked.contains second.hash with
  | true, false => .gt
  | false, true => .lt
  | _, _ =>
      let firstRank := (store.getRank first.hash).getD 0
      let secondRank := (store.getRank second.hash).getD 0
      match decide (firstRank < cutoff), decide (secondRank < cutoff) with
      | true, false => .lt
      | false, true => .gt
      | _, _ => compare firstRank secondRank

/-- The eviction loop, with the entries that it drops. -/
def evictOpaque (locked : List NodeHash) (usage : Ledger OpaqueEntry) :
    List OpaqueEntry × Ledger OpaqueEntry :=
  usage.evict OpaqueEntry.size opaqueStoreQuota (fun entry => locked.contains entry.hash)
    (fun first second =>
      (evictionOrder store (store.hotCutoff conversationId) locked first second).isLE)
    usage.entries.length

theorem isLE_evictionOrder (cutoff : Nat) (locked : List NodeHash) (first second : OpaqueEntry) :
    (evictionOrder store cutoff locked first second).isLE =
      ((!locked.contains first.hash && locked.contains second.hash) ||
        (locked.contains first.hash == locked.contains second.hash &&
          decide ((store.getRank first.hash).getD 0 ≤ (store.getRank second.hash).getD 0))) := by
  have hranks : ∀ left right : Nat,
      (match decide (left < cutoff), decide (right < cutoff) with
        | true, false => Ordering.lt
        | false, true => .gt
        | _, _ => compare left right).isLE = decide (left ≤ right) := by
    intro left right
    -- A cold rank is below a hot one, so the tiers do not change the order.
    split
    next hcold hhot =>
      rw [decide_eq_true_iff] at hcold
      rw [decide_eq_false_iff_not] at hhot
      exact (decide_eq_true (by omega)).symm
    next hhot hcold =>
      rw [decide_eq_true_iff] at hcold
      rw [decide_eq_false_iff_not] at hhot
      exact (decide_eq_false (by omega)).symm
    next => rw [Bool.eq_iff_iff, Nat.isLE_compare, decide_eq_true_iff]
  unfold evictionOrder
  cases locked.contains first.hash <;> cases locked.contains second.hash
  · exact hranks _ _
  · rfl
  · rfl
  · exact hranks _ _

/-- Locked entries are not evicted. -/
theorem evictOpaque_unlocked (locked : List NodeHash) (usage : Ledger OpaqueEntry) :
    ∀ entry ∈ (evictOpaque store conversationId locked usage).1,
      locked.contains entry.hash = false := by
  refine Ledger.evict_unlocked (fun first second third hfirst hsecond => ?_)
    (fun first second => ?_) (fun first second hlocked hunlocked => ?_) _ usage
  · rw [isLE_evictionOrder] at hfirst hsecond ⊢
    generalize locked.contains first.hash = one at *
    generalize locked.contains second.hash = two at *
    generalize locked.contains third.hash = three at *
    cases one <;> cases two <;> cases three <;> simp at hfirst hsecond ⊢ <;> omega
  · rw [isLE_evictionOrder, isLE_evictionOrder]
    generalize locked.contains first.hash = one
    generalize locked.contains second.hash = two
    cases one <;> cases two <;> simp <;> omega
  · rw [isLE_evictionOrder, hlocked, hunlocked]
    rfl

/-- As many rounds as there are entries are enough: the loop ends because its condition fails. -/
theorem evictOpaque_done (locked : List NodeHash) (usage : Ledger OpaqueEntry) :
    (evictOpaque store conversationId locked usage).2.total ≤ opaqueStoreQuota ∨
      ∀ entry ∈ (evictOpaque store conversationId locked usage).2.entries,
        locked.contains entry.hash = true :=
  Ledger.evict_done (Nat.le_refl _)

end Eviction

/-! ## Tracking -/

namespace OpaqueUsage

def of (usage : OpaqueUsage) (conversationId : ConversationId) : Ledger OpaqueEntry :=
  (usage.get conversationId).getD .empty

/-- Remove the entry of a hash. -/
def untrack (usage : OpaqueUsage) (conversationId : ConversationId) (nodeHash : NodeHash) :
    OpaqueUsage :=
  usage.modify conversationId fun ledger =>
    ledger.remove OpaqueEntry.size fun entry => entry.hash = nodeHash

/-- What re-verification does to the usage beside its effects. -/
def promote (usage : OpaqueUsage) (effects : List Effect) : OpaqueUsage :=
  effects.foldl (fun usage effect => match effect with
    | .deleteWireNode conversationId nodeHash => usage.untrack conversationId nodeHash
    | _ => usage) usage

/-- Track a wire form, unless its sender has too many entries. -/
def track (usage : OpaqueUsage) (conversationId : ConversationId) (entry : OpaqueEntry) :
    Ledger OpaqueEntry :=
  let ledger := usage.of conversationId
  if maxOpaqueRequestsPerVoucher ≤
      (ledger.entries.filter fun other => other.senderPk = entry.senderPk).length then ledger
  else ledger.push OpaqueEntry.size entry

end OpaqueUsage

/-! ## The handler -/

namespace World

variable [Primitives] [WireCodec]
variable (world : World) (conversationId : ConversationId)

/-- `handle_node_internal_ext` with re-verification. -/
def handleInternal (node : MerkleNode) (nowMs : Int) (fuel : Nat) :
    Except MerkleToxError (List Effect) × World :=
  if world.overlay.isVerified (hash node) || world.overlay.hasNode (hash node) then
    (.ok [], world)
  else
    match world.evaluate conversationId node nowMs with
    | (.error error, world) => (.error error, world)
    | (.ok verdict, world) =>
        let (reverified, world) :=
          if verdict.authentic || verdict.verified then
            let (opaqueEffects, world) := world.reverifyOpaque conversationId nowMs fuel
            let (speculativeEffects, world) :=
              world.reverifySpeculative conversationId nowMs fuel
            (opaqueEffects ++ speculativeEffects, world)
          else ([], world)
        (.ok (verdict.effects ++ reverified ++
          [.emitEvent (world.engine.nodeEvent conversationId node verdict.verified)]), world)

/-- Let the overlay see a wire form that arrives. -/
def cacheWire (nodeHash : NodeHash) (wire : WireNode) : World :=
  let cache := world.engine.pendingCache
  world.withEngine { world.engine with
    pendingCache := { cache with
      wireNodes := cache.wireNodes.insert nodeHash (conversationId, wire) } }

variable [ExceptionCodec]

/-- A cleartext wire form. Its author is looked up among the authorized devices. -/
def openException (wire : WireNode) : Option MerkleNode :=
  if wire.isEncrypted then none
  else
    (ExceptionCodec.unpackException wire).map fun node =>
      match (world.engine.identityManager.listAllAuthorizedSenderPairs conversationId).find?
          fun sender => sender.1 = node.senderPk with
      | some sender => { node with authorPk := sender.2 }
      | none => node

/-- An encrypted wire form; the peer that sent it is a candidate too. -/
def openContent (senderPk : PhysicalDevicePk) (conversationId : ConversationId) (wire : WireNode) :
    Option MerkleNode :=
  match world.engine.establishedState conversationId with
  | none => none
  | some em =>
      let senders := world.engine.identityManager.listAllAuthorizedSenderPairs conversationId
      WireCodec.unpack em wire
        (if senders.any fun sender => sender.1 = senderPk then senders
          else senders ++ [(senderPk, senderPk.toLogical)])

def openWire (senderPk : PhysicalDevicePk) (conversationId : ConversationId) (wire : WireNode) :
    Option MerkleNode :=
  (world.openException conversationId wire).or (world.openContent senderPk conversationId wire)

end World

/-- An engine with the usage of its opaque stores, and the store of each conversation. -/
structure TrackedEngine where
  engine : Engine
  stores : ConversationId → InMemoryStore
  opaqueStoreUsage : OpaqueUsage
  promotionLocked : List NodeHash

/-- The calls of the engine's owner, and a wire form that arrives from a peer. -/
inductive TrackedCommand
  | handleNode (conversationId : ConversationId) (node : MerkleNode) (nowMs : Int) (fuel : Nat)
  | authorNode (conversationId : ConversationId) (content : Content) (metadata : Bytes)
      (nowMs : Int)
  | rotateConversationKey (conversationId : ConversationId) (nowMs : Int)
  | senderRekey (conversationId : ConversationId) (nowMs : Int)
  | receive (senderPk : PhysicalDevicePk) (conversationId : ConversationId)
      (nodeHash : NodeHash) (wire : WireNode) (active : Bool) (nowMs : Int) (fuel : Nat)

namespace TrackedEngine

/-- An engine that starts has tracked nothing, and its stores are empty. -/
def new (engine : Engine) : TrackedEngine := ⟨engine, fun _ => .new, .empty, []⟩

/-- The engine with the store of a conversation. -/
def world (tracked : TrackedEngine) (conversationId : ConversationId) : World :=
  ⟨tracked.engine, tracked.stores conversationId, [], []⟩

variable [Primitives]
variable (tracked : TrackedEngine) (conversationId : ConversationId)

/-- The end of a call: its effects are applied to the store of the conversation. -/
def absorb (result : Except MerkleToxError (List Effect)) (world : World) : TrackedEngine :=
  let finished := world.finish result
  { tracked with
      engine := finished.engine
      stores := Function.update tracked.stores conversationId finished.store }

/-- The end of a call that authors. -/
def call (outcome : Outcome) : TrackedEngine :=
  tracked.absorb conversationId outcome.1
    ((tracked.world conversationId).withEngine outcome.2)

/-- The end of a call that may have re-verified opaque nodes. -/
def settle (result : Except MerkleToxError (List Effect)) (world : World) : TrackedEngine :=
  { tracked.absorb conversationId result world with
      opaqueStoreUsage := tracked.opaqueStoreUsage.promote (returnedEffects result) }

/-- Track a wire form that does not unpack, and evict while the quota is exceeded. -/
def hoard (senderPk : PhysicalDevicePk) (conversationId : ConversationId) (nodeHash : NodeHash)
    (wire : WireNode) (nowMs : Int) (world : World) : TrackedEngine :=
  let ledger := tracked.opaqueStoreUsage.track conversationId
    ⟨nodeHash, wire.wireSize, nowMs, senderPk⟩
  let (evicted, ledger) := evictOpaque world.store conversationId tracked.promotionLocked ledger
  { tracked.absorb conversationId (.ok (.writeWireNode conversationId nodeHash wire ::
      evicted.map fun entry => .deleteWireNode conversationId entry.hash)) world with
      opaqueStoreUsage := tracked.opaqueStoreUsage.insert conversationId ledger }

variable [WireCodec] [ExceptionCodec]

/-- The world in which a message is handled. -/
def arrive (nodeHash : NodeHash) (wire : WireNode) (active : Bool) : World :=
  let world := tracked.world conversationId
  let cleared := world.withEngine world.engine.clearPending
  if active then cleared.cacheWire conversationId nodeHash wire else cleared

/-- The handler of a `MerkleNode` message. An error loses the effects. -/
def receive (senderPk : PhysicalDevicePk) (conversationId : ConversationId) (nodeHash : NodeHash)
    (wire : WireNode) (active : Bool) (nowMs : Int) (fuel : Nat) : TrackedEngine :=
  let world := tracked.arrive conversationId nodeHash wire active
  match world.openWire senderPk conversationId wire with
  | none => tracked.hoard senderPk conversationId nodeHash wire nowMs world
  | some node =>
      match world.handleInternal conversationId node nowMs fuel with
      | (.error error, world) => tracked.settle conversationId (.error error) world
      | (.ok effects, world) =>
          let settled := tracked.settle conversationId
            (.ok (.writeWireNode conversationId nodeHash wire :: effects)) world
          { settled with
              opaqueStoreUsage := settled.opaqueStoreUsage.untrack conversationId nodeHash }

def step (tracked : TrackedEngine) : TrackedCommand → TrackedEngine
  | .handleNode conversationId node nowMs fuel =>
      let (result, world) :=
        (tracked.world conversationId).handleNode conversationId node nowMs fuel
      tracked.settle conversationId result world
  | .authorNode conversationId content metadata nowMs =>
      tracked.call conversationId
        (tracked.engine.authorNode (tracked.stores conversationId) conversationId content metadata
          nowMs)
  | .rotateConversationKey conversationId nowMs =>
      tracked.call conversationId
        (Engine.rotateConversationKey (tracked.stores conversationId) conversationId nowMs
          tracked.engine false)
  | .senderRekey conversationId nowMs =>
      tracked.call conversationId
        (tracked.engine.senderRekey (tracked.stores conversationId) conversationId nowMs)
  | .receive senderPk conversationId nodeHash wire active nowMs fuel =>
      tracked.receive senderPk conversationId nodeHash wire active nowMs fuel

def run (tracked : TrackedEngine) (commands : List TrackedCommand) : TrackedEngine :=
  runFrom step tracked commands

end TrackedEngine

end MerkleTox.Core
