import MerkleTox.Core.World

/-! # Keys that rotate by themselves

`poll` and the handler of re-inclusion requests, as far as they rotate conversation keys:
with what goes stale before, and with the sender keys that are renewed instead. Both ask
whether this device is an admin under the identity that its own key stands for. The
announcements and the retried key wraps at the end of `poll` are calls of `author_node`.
-/

namespace MerkleTox.Core

open Library Proto

/-- `tox_proto::constants::VOUCHER_TIMEOUT_MS`. -/
def voucherTimeoutMs : Int := 10000

/-- `tox_proto::constants::TRUST_RESTORED_EXPIRY_MS`. -/
def trustRestoredExpiryMs : Int := 30 * 24 * 60 * 60 * 1000

/-- The vouchers of the last ten seconds. -/
def freshVouchers (vouchers : Vouchers) (nowMs : Int) : Vouchers :=
  (vouchers.mapValues fun _ devices =>
    devices.retain fun _ timestamp => nowMs - timestamp ≤ voucherTimeoutMs).retain
      fun _ devices => !devices.isEmpty

/-- Skipped keys older than a day and vouchers older than ten seconds go. -/
def Conversation.dropStale (nowMs : Int) : Conversation → Conversation
  | pending state => pending { state with vouchers := freshVouchers state.vouchers nowMs }
  | established em => established { em with
      skippedKeys := em.skippedKeys.retain fun _ key => nowMs - key.2 ≤ skippedKeyTtlMs
      vouchers := freshVouchers em.vouchers nowMs }

namespace Engine

def dropStale (engine : Engine) (nowMs : Int) : Engine :=
  { engine with
      conversations := engine.conversations.mapValues fun _ conversation =>
        conversation.dropStale nowMs }

/-- A device whose trust was restored and not confirmed for 30 days is forgotten; this
device falls back to observing. -/
def expireTrusted (engine : Engine) (key : ConversationId × PhysicalDevicePk) : Engine :=
  { engine with
      trustRestoredDevices := engine.trustRestoredDevices.erase key
      conversations :=
        if key.2 = engine.selfPk then
          engine.conversations.modify key.1 fun _ => .pending .new
        else engine.conversations }

def expireTrust (engine : Engine) (nowMs : Int) : Engine :=
  ((engine.trustRestoredDevices.entries.filter fun entry =>
    trustRestoredExpiryMs < nowMs - entry.2).map Prod.fst).foldl expireTrusted engine

/-- The engine of `poll` when it comes to the rotations. -/
def refreshed (engine : Engine) (nowMs : Int) : Engine :=
  (engine.clearPending.dropStale nowMs).expireTrust nowMs

/-- `is_admin` of this device, under the identity that its own key stands for. -/
def isOwnAdmin (engine : Engine) (conversationId : ConversationId) (nowMs : Int) : Bool :=
  ((engine.identityManager.getPermissions .global conversationId engine.selfPk
    engine.selfPk.toLogical nowMs u64Max).getD .none).includes .admin

section Rotating

variable [Primitives]

/-- What `poll` does for one conversation. -/
def pollConversation (engine : Engine) (store : InMemoryStore) (nowMs : Int)
    (conversationId : ConversationId) : Outcome :=
  if engine.checkRotationTriggers conversationId nowMs then
    if engine.isOwnAdmin conversationId nowMs then
      rotateConversationKey store conversationId nowMs engine false
    else (.ok [], engine)
  else if engine.checkSenderRekeyTriggers conversationId nowMs then
    engine.senderRekey store conversationId nowMs
  else (.ok [], engine)

def pollConversations (engine : Engine) (store : InMemoryStore) (nowMs : Int) :
    List ConversationId → Outcome
  | [] => (.ok [], engine)
  | conversationId :: rest =>
      match engine.pollConversation store nowMs conversationId with
      | (.error error, engine) => (.error error, engine)
      | (.ok effects, engine) =>
          match engine.pollConversations store nowMs rest with
          | (.error error, engine) => (.error error, engine)
          | (.ok later, engine) => (.ok (effects ++ later), engine)

/-- The rotations of `poll`. -/
def poll (engine : Engine) (store : InMemoryStore) (nowMs : Int) : Outcome :=
  (engine.refreshed nowMs).pollConversations store nowMs
    (engine.refreshed nowMs).conversations.keys

/-- The members that an anchor snapshot lists. -/
def snapshotLists (node : MerkleNode) (requesterPk : PhysicalDevicePk) : Bool :=
  match node.content with
  | .control (.anchorSnapshot data _) =>
      data.members.any fun member => member.publicKey = requesterPk.toLogical
  | _ => false

/-- The handling of a `ReinclusionRequest`: whether the response accepts it, if there is a
response, and what the rotation does. -/
def handleReinclusionRequest (engine : Engine) (store : InMemoryStore)
    (conversationId : ConversationId) (requesterPk : PhysicalDevicePk)
    (healingSnapshotHash : NodeHash) (nowMs : Int) : Option Bool × Outcome :=
  if !engine.isOwnAdmin conversationId nowMs then (none, (.ok [], engine))
  else
    match store.getNode healingSnapshotHash with
    | none => (some false, (.ok [], engine))
    | some snapshotNode =>
        if !store.isVerified healingSnapshotHash ||
            !snapshotLists snapshotNode requesterPk then
          (some false, (.ok [], engine))
        else
          match rotateConversationKey store conversationId nowMs engine false with
          | (.ok effects, engine) => (some true, (.ok effects, engine))
          | (.error _, engine) => (some false, (.ok [], engine))

end Rotating

end Engine

/-! ## Runs with rotations -/

/-- The calls of the engine's owner, its background task and its handler of re-inclusion
requests. -/
inductive KeyCommand
  | call (command : Command)
  | poll (nowMs : Int)
  | reinclusionRequest (conversationId : ConversationId) (requesterPk : PhysicalDevicePk)
      (healingSnapshotHash : NodeHash) (nowMs : Int)

/-- The effects that a call returns. -/
def Outcome.effects (outcome : Outcome) : List Effect :=
  match outcome.1 with
  | .ok effects => effects
  | .error _ => []

namespace World

variable [Primitives]

/-- The outcome of the calls that may rotate a key by themselves, and their time. -/
def rotating (world : World) : KeyCommand → Option (Outcome × Int)
  | .call (.authorNode conversationId content metadata nowMs) =>
      some (world.engine.authorNode world.store conversationId content metadata nowMs, nowMs)
  | .call _ => none
  | .poll nowMs => some (world.engine.poll world.store nowMs, nowMs)
  | .reinclusionRequest conversationId requesterPk healingSnapshotHash nowMs =>
      some ((world.engine.handleReinclusionRequest world.store conversationId requesterPk
        healingSnapshotHash nowMs).2, nowMs)

variable [WireCodec]

def keyStep (world : World) : KeyCommand → World
  | .call command => world.step command
  | .poll nowMs => world.call (world.engine.poll world.store nowMs)
  | .reinclusionRequest conversationId requesterPk healingSnapshotHash nowMs =>
      world.call (world.engine.handleReinclusionRequest world.store conversationId requesterPk
        healingSnapshotHash nowMs).2

def keyRun (world : World) (commands : List KeyCommand) : World :=
  runFrom keyStep world commands

end World

end MerkleTox.Core
