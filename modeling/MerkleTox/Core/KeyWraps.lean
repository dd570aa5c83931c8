import MerkleTox.Core.Reference

/-! # Key wraps that await their acknowledgement

A key exchange that uses up a one-time pre-key of its recipient leaves a pending entry, and until
the entry is gone no content is authored in the conversation. An acknowledgement removes the
entry, and so does polling after its timeout, which also tries the exchange again. Instants are
in milliseconds.
-/

namespace MerkleTox.Core

open Library Proto

structure KeyWrapPending where
  conversationId : ConversationId
  recipientPk : PhysicalDevicePk
  createdAt : Nat
  attempts : Nat
  deriving DecidableEq, Repr

structure HandshakeRetryState where
  attempts : Nat
  nextRetryMs : Int
  windowStartMs : Int
  deriving DecidableEq, Repr

def handshakeRetryCap : Nat := 3
def handshakeRetryWindowMs : Int := 600000
def keywrapAckTimeout : Nat := 30000
def maxKeywrapRetries : Nat := 3

/-- The engine with what key exchanges keep. -/
structure Initiator where
  engine : Engine
  keywrapPending : AssocMap NodeHash KeyWrapPending
  handshakeRetryState : AssocMap (ConversationId × PhysicalDevicePk) HandshakeRetryState
  /-- The acknowledgements received and the recipients of a conversation. -/
  keywrapAckCounts : AssocMap ConversationId (Nat × Nat)
  peerBlacklist : AssocMap PhysicalDevicePk BlacklistState

namespace Initiator

def new (engine : Engine) : Initiator := ⟨engine, .empty, .empty, .empty, .empty⟩

def withEngine (initiator : Initiator) (engine : Engine) : Initiator :=
  { initiator with engine := engine }

/-- The engine as its authoring sees it, with the conversations of the pending entries. -/
def view (initiator : Initiator) : Engine :=
  { initiator.engine with
      keywrapPending := initiator.keywrapPending.project KeyWrapPending.conversationId }

/-- Count an exchange against its window; `none` if there were too many. -/
def admitHandshake (initiator : Initiator) (conversationId : ConversationId)
    (peerPk : PhysicalDevicePk) (nowMs : Int) : Option Initiator :=
  let state := (initiator.handshakeRetryState.get (conversationId, peerPk)).getD ⟨0, 0, 0⟩
  let keep (state : HandshakeRetryState) : Initiator :=
    { initiator with
        handshakeRetryState :=
          initiator.handshakeRetryState.insert (conversationId, peerPk) state }
  if handshakeRetryCap ≤ state.attempts then
    if nowMs < state.windowStartMs + handshakeRetryWindowMs then none
    else some (keep { state with attempts := 0, windowStartMs := nowMs })
  else if state.windowStartMs = 0 then some (keep { state with windowStartMs := nowMs })
  else some (keep state)

variable [Primitives]

/-- Establish a conversation with the key of an exchange, or add the key to it. -/
def establishWith (engine : Engine) (conversationId : ConversationId) (generation : Nat)
    (kConv : KConv) (nowMs : Int) : Engine :=
  let em := match engine.conversations.get conversationId with
    | some (.established em) => em.addEpoch generation kConv
    | some (.pending pending) => pending.establish kConv nowMs generation
    | none => Pending.new.establish kConv nowMs generation
  engine.setConversation conversationId (.established em)

/-- The hash of the first node that is written. -/
def writtenHash (effects : List Effect) : Option NodeHash :=
  effects.findSome? fun
    | .writeStore _ node _ => some (hash node)
    | _ => none

/-- Wait for the acknowledgement of a key wrap that used up a one-time pre-key. -/
def notePending (initiator : Initiator) (conversationId : ConversationId)
    (peerPk : PhysicalDevicePk) (opkId : NodeHash) (effects : List Effect) (createdAt : Nat) :
    Initiator :=
  if opkId = .zero then initiator
  else
    match writtenHash effects with
    | none => initiator
    | some keywrapHash =>
        { initiator with
            keywrapPending := initiator.keywrapPending.insert keywrapHash
              ⟨conversationId, peerPk, createdAt, 0⟩ }

/-- The exchange itself: wrap a fresh key for the peer and author the node. -/
def exchangeKey (initiator : Initiator) (store : InMemoryStore)
    (conversationId : ConversationId) (peerPk : PhysicalDevicePk) (peerSpk : EphemeralX25519Pk)
    (nowMs : Int) (createdAt : Nat) : Except MerkleToxError (List Effect) × Initiator :=
  let (ephemeralSk, rng) := initiator.view.rng.next
  let (kConvBytes, rng) := rng.next
  let kConv : KConv := ⟨kConvBytes⟩
  let (opk, engine) := (initiator.view.withRng rng).consumeRecipientOpk peerPk nowMs
  let opkId := (opk.map Prod.snd).getD .zero
  let ciphertext := Primitives.eciesWrap ⟨ephemeralSk⟩ peerSpk (opk.map Prod.fst) none
    kConv.bytes.toBytes
  let generation := (((engine.establishedState conversationId).map
    Established.currentEpoch).getD 0) % 2 ^ 32
  let engine := establishWith engine conversationId generation kConv nowMs
  let content := Content.keyWrap generation (engine.anchorHash conversationId)
    (Primitives.x25519PublicKey ⟨ephemeralSk⟩) [⟨peerPk, opkId, ciphertext⟩]
  match engine.authorNode store conversationId content [] nowMs with
  | (.error error, engine) => (.error error, initiator.withEngine engine)
  | (.ok effects, engine) =>
      let effects := effects ++ [.writeConversationKey conversationId generation kConv]
      (.ok effects,
        (initiator.withEngine engine).notePending conversationId peerPk opkId effects createdAt)

/-- `author_x3dh_key_exchange`. A peer that has only its last-resort key left is asked for new
keys instead. -/
def authorX3dhKeyExchange (initiator : Initiator) (store : InMemoryStore)
    (conversationId : ConversationId) (peerPk : PhysicalDevicePk) (peerSpk : EphemeralX25519Pk)
    (nowMs : Int) (createdAt : Nat) : Except MerkleToxError (List Effect) × Initiator :=
  let initiator := initiator.withEngine initiator.engine.clearPending
  match initiator.admitHandshake conversationId peerPk nowMs with
  | none => (.ok [], initiator)
  | some initiator =>
      if (initiator.engine.peerAnnouncements.get peerPk).any fun announcement =>
          announcement.lastResortKey.publicKey = peerSpk then
        let (result, engine) := initiator.view.authorNode store conversationId
          (.control .handshakePulse) [] nowMs
        (result, initiator.withEngine engine)
      else initiator.exchangeKey store conversationId peerPk peerSpk nowMs createdAt

def isBlacklisted (initiator : Initiator) (senderPk : PhysicalDevicePk) (nowMs : Int) : Bool :=
  (initiator.peerBlacklist.get senderPk).any fun state => state.isActive nowMs

/-- Count an acknowledgement; when half of the recipients have sent theirs, the signing keys of
earlier epochs are erased. -/
def countAck (initiator : Initiator) (conversationId : ConversationId) : Initiator :=
  let (acks, total) := (initiator.keywrapAckCounts.get conversationId).getD (0, 0)
  let acks := acks + 1
  if 0 < total && total ≤ acks * 2 then
    let keys := match initiator.engine.establishedState conversationId with
      | some em => initiator.engine.selfEphemeralSigningKeys.retain fun epoch _ =>
          em.currentEpoch ≤ epoch
      | none => initiator.engine.selfEphemeralSigningKeys
    { initiator with
        engine := { initiator.engine with selfEphemeralSigningKeys := keys }
        keywrapAckCounts := initiator.keywrapAckCounts.insert conversationId (0, 0) }
  else
    { initiator with
        keywrapAckCounts := initiator.keywrapAckCounts.insert conversationId (acks, total) }

/-- The handler of `KeywrapAck`; whom the message comes from is only logged. -/
def handleKeywrapAck (initiator : Initiator) (senderPk : PhysicalDevicePk)
    (keywrapHash : NodeHash) (recipientPk : PhysicalDevicePk) (nowMs : Int) : Initiator :=
  let initiator := initiator.withEngine initiator.engine.clearPending
  if initiator.isBlacklisted senderPk nowMs then initiator
  else
    match initiator.keywrapPending.get keywrapHash with
    | none => initiator
    | some pending =>
        let removed :=
          { initiator with keywrapPending := initiator.keywrapPending.erase keywrapHash }
        if pending.recipientPk = recipientPk then removed.countAck pending.conversationId
        else
          { removed with
              keywrapPending := removed.keywrapPending.insert keywrapHash pending }

/-- `created_at.elapsed()`; the operating system's clock is read, whatever clock the engine has. -/
def elapsed (pending : KeyWrapPending) (systemNow : Nat) : Nat := systemNow - pending.createdAt

/-- Set the attempts of the first entry for a conversation and a recipient. -/
def setAttempts (initiator : Initiator) (conversationId : ConversationId)
    (peerPk : PhysicalDevicePk) (attempts : Nat) : Initiator :=
  match initiator.keywrapPending.entries.find? fun entry =>
      entry.2.conversationId = conversationId && entry.2.recipientPk = peerPk with
  | none => initiator
  | some entry =>
      { initiator with
          keywrapPending := initiator.keywrapPending.modify entry.1 fun pending =>
            { pending with attempts := attempts } }

/-- Try the exchange of an expired entry again, with another pre-key. -/
def retryKeywrap (store : InMemoryStore) (nowMs : Int) (instant : Nat)
    (state : List Effect × Initiator) (pending : KeyWrapPending) : List Effect × Initiator :=
  let (effects, initiator) := state
  match initiator.engine.getRecipientSpk pending.recipientPk nowMs with
  | none => (effects, initiator)
  | some spk =>
      match initiator.authorX3dhKeyExchange store pending.conversationId pending.recipientPk spk
          nowMs instant with
      | (.ok authored, initiator) =>
          (effects ++ authored, initiator.setAttempts pending.conversationId pending.recipientPk
            (pending.attempts + 1))
      | (.error _, initiator) => (effects, initiator)

/-- The part of `poll` about pending key wraps. -/
def pollKeywraps (initiator : Initiator) (store : InMemoryStore) (nowMs : Int)
    (systemNow instant : Nat) : List Effect × Initiator :=
  let expired := initiator.keywrapPending.values.filter fun pending =>
    keywrapAckTimeout ≤ elapsed pending systemNow && pending.attempts < maxKeywrapRetries
  let kept :=
    { initiator with
        keywrapPending := initiator.keywrapPending.retain fun _ pending =>
          elapsed pending systemNow < keywrapAckTimeout }
  expired.foldl (retryKeywrap store nowMs instant) ([], kept)

/-- What happens to an engine that initiates. The rest of `poll`, other messages and other calls
change the engine, the retry windows, the counts and the blacklist, but not the entries. -/
inductive Event
  | keyExchange (store : InMemoryStore) (conversationId : ConversationId)
      (peerPk : PhysicalDevicePk) (peerSpk : EphemeralX25519Pk) (nowMs : Int) (instant : Nat)
  | keywrapAck (senderPk : PhysicalDevicePk) (keywrapHash : NodeHash)
      (recipientPk : PhysicalDevicePk) (nowMs : Int)
  | poll (store : InMemoryStore) (nowMs : Int) (systemNow instant : Nat)
  | other (engine : Engine)
      (handshakeRetryState : AssocMap (ConversationId × PhysicalDevicePk) HandshakeRetryState)
      (keywrapAckCounts : AssocMap ConversationId (Nat × Nat))
      (peerBlacklist : AssocMap PhysicalDevicePk BlacklistState)

def step (initiator : Initiator) : Event → Initiator
  | .keyExchange store conversationId peerPk peerSpk nowMs instant =>
      (initiator.authorX3dhKeyExchange store conversationId peerPk peerSpk nowMs instant).2
  | .keywrapAck senderPk keywrapHash recipientPk nowMs =>
      initiator.handleKeywrapAck senderPk keywrapHash recipientPk nowMs
  | .poll store nowMs systemNow instant =>
      (initiator.pollKeywraps store nowMs systemNow instant).2
  | .other engine handshakeRetryState keywrapAckCounts peerBlacklist =>
      { engine, keywrapPending := initiator.keywrapPending, handshakeRetryState,
        keywrapAckCounts, peerBlacklist }

/-! ## Entries stay -/

variable {initiator : Initiator} {keywrapHash : NodeHash} {pending : KeyWrapPending}

/-- No entry is lost; an entry may be made again or have its attempts set. -/
def Keeps (before after : Initiator) : Prop :=
  ∀ keywrapHash, (before.keywrapPending.get keywrapHash).isSome →
    (after.keywrapPending.get keywrapHash).isSome

omit [Primitives] in
theorem Keeps.of_eq {before after : Initiator}
    (heq : after.keywrapPending = before.keywrapPending) : Keeps before after :=
  fun keywrapHash hsome => by rwa [heq]

omit [Primitives] in
theorem Keeps.trans {first second third : Initiator} (hfirst : Keeps first second)
    (hsecond : Keeps second third) : Keeps first third :=
  fun keywrapHash hsome => hsecond keywrapHash (hfirst keywrapHash hsome)

omit [Primitives] in
theorem admitHandshake_pending {initiator admitted : Initiator} {conversationId : ConversationId}
    {peerPk : PhysicalDevicePk} {nowMs : Int}
    (hadmitted : initiator.admitHandshake conversationId peerPk nowMs = some admitted) :
    admitted.keywrapPending = initiator.keywrapPending := by
  unfold admitHandshake at hadmitted
  simp only at hadmitted
  split at hadmitted
  · split at hadmitted
    · cases hadmitted
    · cases hadmitted; rfl
  · split at hadmitted
    · cases hadmitted; rfl
    · cases hadmitted; rfl

theorem notePending_keeps (initiator : Initiator) (conversationId : ConversationId)
    (peerPk : PhysicalDevicePk) (opkId : NodeHash) (effects : List Effect) (createdAt : Nat) :
    Keeps initiator
      (initiator.notePending conversationId peerPk opkId effects createdAt) := by
  unfold notePending
  split
  · exact .of_eq rfl
  · split
    · exact .of_eq rfl
    · intro keywrapHash hsome
      simp only [AssocMap.get_insert]
      split
      · rfl
      · exact hsome

section

variable (initiator : Initiator) (store : InMemoryStore) (conversationId : ConversationId) (peerPk :
  PhysicalDevicePk) (peerSpk : EphemeralX25519Pk) (nowMs : Int) (createdAt : Nat)

theorem exchangeKey_keeps : Keeps initiator
      (initiator.exchangeKey store conversationId peerPk peerSpk nowMs createdAt).2 := by
  unfold exchangeKey
  simp only
  split
  · exact .of_eq rfl
  next engine _ =>
    have hengine : Keeps initiator (initiator.withEngine engine) := .of_eq rfl
    exact hengine.trans (notePending_keeps _ _ _ _ _ _)

theorem authorX3dhKeyExchange_keeps : Keeps initiator
      (initiator.authorX3dhKeyExchange store conversationId peerPk peerSpk nowMs createdAt).2 := by
  unfold authorX3dhKeyExchange
  simp only
  split
  · exact .of_eq rfl
  next admitted hadmitted =>
    have hkept : Keeps initiator admitted := fun keywrapHash hsome => by
      rwa [admitHandshake_pending hadmitted]
    split
    · exact hkept
    · exact hkept.trans (exchangeKey_keeps _ _ _ _ _ _ _)

end

omit [Primitives] in
theorem setAttempts_keeps (initiator : Initiator) (conversationId : ConversationId)
    (peerPk : PhysicalDevicePk) (attempts : Nat) :
    Keeps initiator (initiator.setAttempts conversationId peerPk attempts) := by
  unfold setAttempts
  split
  · exact .of_eq rfl
  · intro keywrapHash hsome
    rwa [AssocMap.isSome_get_modify]

theorem retryKeywrap_keeps (store : InMemoryStore) (nowMs : Int) (instant : Nat)
    (state : List Effect × Initiator) (pending : KeyWrapPending) :
    Keeps state.2 (retryKeywrap store nowMs instant state pending).2 := by
  obtain ⟨effects, initiator⟩ := state
  unfold retryKeywrap
  simp only
  split
  · exact .of_eq rfl
  next spk _ =>
    have hauthored := initiator.authorX3dhKeyExchange_keeps store pending.conversationId
      pending.recipientPk spk nowMs instant
    split
    next heq =>
      rw [heq] at hauthored
      exact hauthored.trans (setAttempts_keeps _ _ _ _)
    next heq =>
      rw [heq] at hauthored
      exact hauthored

theorem foldl_retryKeywrap_keeps (store : InMemoryStore) (nowMs : Int) (instant : Nat)
    (expired : List KeyWrapPending) (state : List Effect × Initiator) :
    Keeps state.2 (expired.foldl (retryKeywrap store nowMs instant) state).2 := by
  induction expired generalizing state with
  | nil => exact .of_eq rfl
  | cons pending rest ih => exact (retryKeywrap_keeps _ _ _ _ _).trans (ih _)

/-- Polling clears the entries that have timed out only. -/
theorem pollKeywraps_cleared {store : InMemoryStore} {nowMs : Int} {systemNow instant : Nat}
    (hpending : initiator.keywrapPending.get keywrapHash = some pending)
    (hcleared : (initiator.pollKeywraps store nowMs systemNow instant).2.keywrapPending.get
      keywrapHash = none) : keywrapAckTimeout ≤ elapsed pending systemNow := by
  by_contra hwaiting
  have hkept : (initiator.keywrapPending.retain fun _ pending =>
      elapsed pending systemNow < keywrapAckTimeout).get keywrapHash = some pending := by
    rw [AssocMap.get_retain, hpending, Option.filter_some, if_pos (decide_eq_true (by omega))]
  have hsome := foldl_retryKeywrap_keeps store nowMs instant
    (initiator.keywrapPending.values.filter fun pending =>
      keywrapAckTimeout ≤ elapsed pending systemNow && pending.attempts < maxKeywrapRetries)
    ([], { initiator with
      keywrapPending := initiator.keywrapPending.retain fun _ pending =>
        elapsed pending systemNow < keywrapAckTimeout }) keywrapHash (by simp only [hkept]; rfl)
  rw [pollKeywraps] at hcleared
  simp only [hcleared] at hsome
  cases hsome

/-! ## Acknowledgements -/

omit [Primitives] in
theorem countAck_pending (initiator : Initiator) (conversationId : ConversationId) :
    (initiator.countAck conversationId).keywrapPending = initiator.keywrapPending := by
  unfold countAck
  simp only
  split <;> rfl

omit [Primitives] in
/-- What an acknowledgement does to the entries: the message names the recipient itself. -/
theorem handleKeywrapAck_get (initiator : Initiator) (senderPk : PhysicalDevicePk)
    (acked : NodeHash) (recipientPk : PhysicalDevicePk) (nowMs : Int) (keywrapHash : NodeHash) :
    (initiator.handleKeywrapAck senderPk acked recipientPk nowMs).keywrapPending.get keywrapHash =
      if keywrapHash = acked ∧ initiator.isBlacklisted senderPk nowMs = false ∧
          (initiator.keywrapPending.get acked).any
            (fun pending => pending.recipientPk = recipientPk) = true then none
      else initiator.keywrapPending.get keywrapHash := by
  have hlisted : (initiator.withEngine initiator.engine.clearPending).isBlacklisted senderPk
      nowMs = initiator.isBlacklisted senderPk nowMs := rfl
  have hentries : (initiator.withEngine initiator.engine.clearPending).keywrapPending =
      initiator.keywrapPending := rfl
  unfold handleKeywrapAck
  simp only [hlisted, hentries]
  cases initiator.isBlacklisted senderPk nowMs with
  | true => simp [hentries]
  | false =>
      simp only [Bool.false_eq_true, if_false]
      cases hget : initiator.keywrapPending.get acked with
      | none => simp [hentries]
      | some pending =>
          by_cases hrecipient : pending.recipientPk = recipientPk
          · by_cases heq : keywrapHash = acked
            · simp [hrecipient, heq, countAck_pending]
            · simp [hrecipient, heq, countAck_pending, AssocMap.get_erase_of_ne]
          · by_cases heq : keywrapHash = acked
            · simp [hrecipient, heq, hget, AssocMap.get_insert]
            · simp [hrecipient, heq, AssocMap.get_insert, AssocMap.get_erase_of_ne]

/-- An entry is cleared by its recipient's acknowledgement or after its timeout only, and the
acknowledgements of other peers do not change it. -/
structure ReleasesRightly (initiator : Initiator) (event : Event) : Prop where
  cleared : ∀ keywrapHash pending,
    initiator.keywrapPending.get keywrapHash = some pending →
      (initiator.step event).keywrapPending.get keywrapHash = none →
        (∃ recipientPk nowMs,
          event = .keywrapAck pending.recipientPk keywrapHash recipientPk nowMs) ∨
        ∃ store nowMs systemNow instant, event = .poll store nowMs systemNow instant ∧
          keywrapAckTimeout ≤ elapsed pending systemNow
  kept : ∀ keywrapHash pending,
    initiator.keywrapPending.get keywrapHash = some pending →
      ∀ senderPk acked recipientPk nowMs,
        event = .keywrapAck senderPk acked recipientPk nowMs → senderPk ≠ pending.recipientPk →
          (initiator.step event).keywrapPending.get keywrapHash = some pending

/-- No peer that is listened to sends an acknowledgement in the name of the recipient of the
entry it is about. -/
def AcksForItself (initiator : Initiator) (event : Event) : Prop :=
  ∀ senderPk keywrapHash recipientPk nowMs pending,
    event = .keywrapAck senderPk keywrapHash recipientPk nowMs →
      initiator.isBlacklisted senderPk nowMs = false →
        initiator.keywrapPending.get keywrapHash = some pending →
          pending.recipientPk = recipientPk → senderPk = recipientPk

theorem ReleasesRightly.of_acksForItself {event : Event} (hacks : initiator.AcksForItself event) :
    initiator.ReleasesRightly event := by
  cases event with
  | keyExchange store conversationId peerPk peerSpk nowMs instant =>
      refine ⟨fun keywrapHash pending hpending hcleared => ?_, fun _ _ _ _ _ _ _ heq => by cases heq⟩
      have hsome := initiator.authorX3dhKeyExchange_keeps store conversationId peerPk peerSpk
        nowMs instant keywrapHash (by rw [hpending]; rfl)
      rw [show (initiator.authorX3dhKeyExchange store conversationId peerPk peerSpk nowMs
        instant).2.keywrapPending.get keywrapHash = none from hcleared] at hsome
      cases hsome
  | keywrapAck senderPk acked recipientPk nowMs =>
      have hget := initiator.handleKeywrapAck_get senderPk acked recipientPk nowMs
      constructor
      · intro keywrapHash pending hpending hcleared
        have hcleared :
            (initiator.handleKeywrapAck senderPk acked recipientPk nowMs).keywrapPending.get
              keywrapHash = none := hcleared
        rw [hget] at hcleared
        split at hcleared
        next hreleased =>
          obtain ⟨rfl, hlistened, hany⟩ := hreleased
          rw [hpending, Option.any_some, decide_eq_true_iff] at hany
          have hsender := hacks _ _ _ _ pending rfl hlistened hpending hany
          exact .inl ⟨recipientPk, nowMs, by rw [hany, hsender]⟩
        next => cases hpending.symm.trans hcleared
      · intro keywrapHash pending hpending _ _ _ _ heq hother
        cases heq
        refine (hget keywrapHash).trans ?_
        rw [if_neg, hpending]
        rintro ⟨rfl, hlistened, hany⟩
        rw [hpending, Option.any_some, decide_eq_true_iff] at hany
        exact hother ((hacks _ _ _ _ pending rfl hlistened hpending hany).trans hany.symm)
  | poll store nowMs systemNow instant =>
      refine ⟨fun keywrapHash pending hpending hcleared => ?_, fun _ _ _ _ _ _ _ heq => by cases heq⟩
      exact .inr ⟨store, nowMs, systemNow, instant, rfl, pollKeywraps_cleared hpending hcleared⟩
  | other engine states counts blacklist =>
      refine ⟨fun keywrapHash pending hpending hcleared => ?_, fun _ _ _ _ _ _ _ heq => by cases heq⟩
      cases hpending.symm.trans hcleared

theorem ReleasesRightly.acksForItself {event : Event} (hrightly : initiator.ReleasesRightly event) :
    initiator.AcksForItself event := by
  rintro senderPk keywrapHash recipientPk nowMs pending rfl hlistened hpending rfl
  by_contra hother
  have hkept := hrightly.kept keywrapHash pending hpending senderPk keywrapHash
    pending.recipientPk nowMs rfl hother
  have hget := initiator.handleKeywrapAck_get senderPk keywrapHash pending.recipientPk nowMs
    keywrapHash
  rw [if_pos ⟨rfl, hlistened, by simp [hpending]⟩] at hget
  cases hget.symm.trans hkept

/-- In a run every entry is released rightly exactly if nobody acknowledges for another. -/
theorem run_releasesRightly_iff (initiator : Initiator) (events : List Event) :
    RunMeets step ReleasesRightly initiator events ↔
      RunMeets step AcksForItself initiator events :=
  runMeets_congr fun _ _ => ⟨ReleasesRightly.acksForItself, ReleasesRightly.of_acksForItself⟩

end Initiator

/-! ## An acknowledgement for another device -/

namespace Reference

open Initiator

/-- The signed pre-key of a device, a one-time pre-key and the last-resort key. -/
def announcement : Announcement where
  preKeys := [⟨⟨20⟩, ⟨0⟩, 5000⟩, ⟨⟨21⟩, ⟨0⟩, 5000⟩]
  lastResortKey := ⟨⟨22⟩, ⟨0⟩, 5000⟩

/-- A device that knows the keys of device 5. -/
def acquainted : Initiator := .new
  { Engine.new ⟨1⟩ ⟨1⟩ (some ⟨1⟩) none ⟨0, 0⟩ with
      peerAnnouncements := AssocMap.empty.insert ⟨5⟩ announcement }

def exchange : Event := .keyExchange .new room ⟨5⟩ ⟨20⟩ 1000 0

def wrapHash : NodeHash := ((acquainted.step exchange).keywrapPending.keys.head?).getD .zero

/-- Device 9 acknowledges in the name of device 5. -/
theorem not_releasesRightly :
    ¬ RunMeets step ReleasesRightly acquainted [exchange, .keywrapAck ⟨9⟩ wrapHash ⟨5⟩ 1001] := by
  rintro ⟨-, hack, -⟩
  have hpending : (acquainted.step exchange).keywrapPending.get wrapHash =
      some ⟨room, ⟨5⟩, 0, 0⟩ := by decide +kernel
  have hlistened : (acquainted.step exchange).isBlacklisted ⟨9⟩ 1001 = false := by
    decide +kernel
  have hsender : (⟨9⟩ : PhysicalDevicePk) = ⟨5⟩ :=
    hack.acksForItself _ _ _ _ _ rfl hlistened hpending rfl
  cases hsender

end Reference

end MerkleTox.Core
