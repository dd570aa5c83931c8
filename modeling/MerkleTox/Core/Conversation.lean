import MerkleTox.Core.Primitives

/-! # Conversations and their ratchets

`merkle_tox_core::engine::conversation`. An established conversation holds the
keys of its epochs and, for each sender, a ratchet: the last sequence number seen,
the chain key of the next message, the node that advanced it and its epoch. A
message key that a ratchet steps over is kept for one day.

`history` is a history that the code does not have: the uses made of the ratchets,
newest first, each with the epoch in which the ratchet was found.
-/

namespace MerkleTox.Core

open Library Proto

/-- Any member with MESSAGE permission may invite. -/
def flagMemberInvite : BitVec 64 := 2

abbrev Vouchers := AssocMap NodeHash (AssocMap PhysicalDevicePk Int)

structure Pending where
  vouchers : Vouchers
  genesisFlags : BitVec 64

structure SenderRatchet where
  lastSeq : Nat
  nextKey : ChainKey
  lastNodeHash : Option NodeHash
  epochId : Nat
  deriving DecidableEq, Repr

/-- A use of the ratchet of a sender: the key of a message was looked up or consumed,
the position was noted without using a key, or a distribution set it. `found` is the
epoch of the ratchet before the use, if there was one. -/
inductive RatchetUse
  | peeked (senderPk : PhysicalDevicePk) (seq : Nat) (found : Option Nat)
  | committed (senderPk : PhysicalDevicePk) (seq : Nat) (nodeHash : NodeHash)
      (found : Option Nat)
  | tracked (senderPk : PhysicalDevicePk) (seq : Nat) (found : Option Nat)
  | seeded (senderPk : PhysicalDevicePk) (epoch lastSeq : Nat)
  deriving DecidableEq, Repr

structure Established where
  /-- `ConversationKeys::derive` is a function of the key of the epoch. -/
  epochs : AssocMap Nat KConv
  senderRatchets : AssocMap PhysicalDevicePk SenderRatchet
  skippedKeys : AssocMap (PhysicalDevicePk × Nat) (MessageKey × Int)
  currentEpoch : Nat
  messageCount : Nat
  lastRotationTimeMs : Int
  vouchers : Vouchers
  senderKeys : AssocMap (PhysicalDevicePk × Nat) SenderKey
  sharedKeysSentTo : List PhysicalDevicePk
  jitHeaders : AssocMap (PhysicalDevicePk × Nat) HeaderKey
  identityPending : Bool
  genesisFlags : BitVec 64
  selfMessageCount : Nat
  selfLastRekeyTimeMs : Int
  history : List RatchetUse

inductive Conversation
  | pending (state : Pending)
  | established (state : Established)

namespace Conversation

def vouchers : Conversation → Vouchers
  | pending state => state.vouchers
  | established state => state.vouchers

def setVouchers (conversation : Conversation) (vouchers : Vouchers) : Conversation :=
  match conversation with
  | pending state => pending { state with vouchers := vouchers }
  | established state => established { state with vouchers := vouchers }

def genesisFlags : Conversation → BitVec 64
  | pending state => state.genesisFlags
  | established state => state.genesisFlags

def setGenesisFlags (conversation : Conversation) (flags : BitVec 64) : Conversation :=
  match conversation with
  | pending state => pending { state with genesisFlags := flags }
  | established state => established { state with genesisFlags := flags }

def isEstablished : Conversation → Bool
  | established _ => true
  | pending _ => false

/-- The established state of a conversation, if it has one. -/
def established? : Conversation → Option Established
  | established state => some state
  | pending _ => none

end Conversation

namespace Pending

def new : Pending := ⟨.empty, 0⟩

def establish (pending : Pending) (initialKConv : KConv) (nowMs : Int) (epoch : Nat) :
    Established where
  epochs := AssocMap.empty.insert epoch initialKConv
  senderRatchets := .empty
  skippedKeys := .empty
  currentEpoch := epoch
  messageCount := 0
  lastRotationTimeMs := nowMs
  vouchers := pending.vouchers
  senderKeys := .empty
  sharedKeysSentTo := []
  jitHeaders := .empty
  identityPending := false
  genesisFlags := pending.genesisFlags
  selfMessageCount := 0
  selfLastRekeyTimeMs := nowMs
  history := []

end Pending

/-- How long a skipped message key is kept, in milliseconds. -/
def skippedKeyTtlMs : Int := 86400000

/-- The bound on the keys a ratchet steps over at once. -/
def maxRatchetSkip : Nat := 2000

variable (em : Established)

namespace Established

/-- `ConversationData::<Established>::new`: the first key is that of epoch 0. -/
def new (initialKConv : KConv) (nowMs : Int) : Established :=
  Pending.new.establish initialKConv nowMs 0

def getKeys (epoch : Nat) : Option KConv := em.epochs.get epoch

def rotate (newKConv : KConv) (nowMs : Int) : Established :=
  let epoch := wrap64 (em.currentEpoch + 1)
  { em with
      currentEpoch := epoch
      epochs := em.epochs.insert epoch newKConv
      senderRatchets := .empty
      messageCount := 0
      lastRotationTimeMs := nowMs
      sharedKeysSentTo := []
      jitHeaders := .empty
      selfMessageCount := 0
      selfLastRekeyTimeMs := nowMs }

def addEpoch (epoch : Nat) (kConv : KConv) : Established :=
  let added := { em with epochs := em.epochs.insert epoch kConv }
  if em.currentEpoch < epoch then
    { added with currentEpoch := epoch, senderRatchets := .empty, messageCount := 0 }
  else added

/-- Drop the skipped keys that have outlived their day. -/
def expireSkipped (nowMs : Int) : Established :=
  { em with
      skippedKeys := em.skippedKeys.retain fun _ entry => nowMs - entry.2 ≤ skippedKeyTtlMs }

/-- The epoch in which the ratchet of a sender stands. -/
def ratchetEpoch (senderPk : PhysicalDevicePk) : Option Nat :=
  (em.senderRatchets.get senderPk).map SenderRatchet.epochId

def record (use : RatchetUse) : Established :=
  { em with history := use :: em.history }

section Keys

variable [Primitives]

/-- Step a chain key over `count` messages from `seq` on, keeping their keys. -/
def skipKeys (em : Established) (senderPk : PhysicalDevicePk) (nowMs : Int) :
    Nat → Nat → ChainKey → Established × ChainKey
  | 0, _, chainKey => (em, chainKey)
  | count + 1, seq, chainKey =>
      let kept := { em with
        skippedKeys := em.skippedKeys.insert (senderPk, seq)
          (Primitives.ratchetMessageKey chainKey, nowMs) }
      kept.skipKeys senderPk nowMs count (seq + 1) (Primitives.ratchetStep chainKey)

/-- The chain key a sender's ratchet starts an epoch with: its own sender key if one
was received, and otherwise a key derived from the key of the epoch. -/
def initialChainKey (senderPk : PhysicalDevicePk) (epoch : Nat) (kConv : KConv) : ChainKey :=
  match em.senderKeys.get (senderPk, epoch) with
  | some senderKey => ⟨senderKey.bytes⟩
  | none => Primitives.ratchetInitSender kConv senderPk

/-- The keys of the message that follows `count` skipped ones. -/
def peekForward (senderPk : PhysicalDevicePk) (nowMs : Int) (count first : Nat)
    (chainKey : ChainKey) : Option (MessageKey × ChainKey) × Established :=
  let (skipped, chainKey) := em.skipKeys senderPk nowMs count first chainKey
  (some (Primitives.ratchetMessageKey chainKey, Primitives.ratchetStep chainKey), skipped)

/-- The keys of the first message of an epoch that its ratchet sees. -/
def peekInitial (senderPk : PhysicalDevicePk) (seq : Nat) (nowMs : Int) :
    Option (MessageKey × ChainKey) × Established :=
  match em.getKeys (epochOf seq) with
  | none => (none, em)
  | some kConv =>
      if maxRatchetSkip < counterOf seq then (none, em)
      else
        em.peekForward senderPk nowMs (counterOf seq - 1) (seqOf (epochOf seq) 1)
          (em.initialChainKey senderPk (epochOf seq) kConv)

/-- The message key and next chain key of a sequence number, with the skipped keys
that finding them leaves behind. -/
def findKeys (senderPk : PhysicalDevicePk) (seq : Nat) (nowMs : Int) :
    Option (MessageKey × ChainKey) × Established :=
  match em.senderRatchets.get senderPk with
  | none => em.peekInitial senderPk seq nowMs
  | some ratchet =>
      let next := wrap64 (ratchet.lastSeq + 1)
      if ratchet.epochId ≠ epochOf seq then em.peekInitial senderPk seq nowMs
      else if seq = next then
        (some (Primitives.ratchetMessageKey ratchet.nextKey,
          Primitives.ratchetStep ratchet.nextKey), em)
      else if seq ≤ ratchet.lastSeq then
        -- A past message: the next chain key is not used.
        (((em.skippedKeys.get (senderPk, seq)).map fun entry => (entry.1, ⟨0⟩)), em)
      else if maxRatchetSkip < seq - next then (none, em)
      else em.peekForward senderPk nowMs (seq - next) next ratchet.nextKey

/-- `peek_keys`: expired skipped keys are dropped first. -/
def peekKeys (senderPk : PhysicalDevicePk) (seq : Nat) (nowMs : Int) :
    Option (MessageKey × ChainKey) × Established :=
  ((em.expireSkipped nowMs).record (.peeked senderPk seq (em.ratchetEpoch senderPk))).findKeys
    senderPk seq nowMs

end Keys

/-- Whether the ratchet of a sender is beyond a position, so that a commit there does
not move it. -/
def ratchetBeyond (senderPk : PhysicalDevicePk) (seq epochId : Nat) : Bool :=
  match em.senderRatchets.get senderPk with
  | some ratchet =>
      epochId < ratchet.epochId || (ratchet.epochId = epochId && seq ≤ ratchet.lastSeq)
  | none => false

/-- Consume the key of a node; the result is the node whose ratchet key it replaces. -/
def commitNodeKey (senderPk : PhysicalDevicePk) (seq : Nat) (nextChainKey : ChainKey)
    (nodeHash : NodeHash) (epochId : Nat) :
    Option NodeHash × Established :=
  let em := { em.record (.committed senderPk seq nodeHash (em.ratchetEpoch senderPk)) with
    skippedKeys := em.skippedKeys.erase (senderPk, seq) }
  if em.ratchetBeyond senderPk seq epochId then (none, em)
  else
    ((em.senderRatchets.get senderPk).bind SenderRatchet.lastNodeHash,
      { em with
          senderRatchets := em.senderRatchets.insert senderPk
            ⟨seq, nextChainKey, some nodeHash, epochId⟩ })

/-- Note the sequence number of a node that does not use the ratchet. -/
def trackSenderSeq (senderPk : PhysicalDevicePk) (seq epochId : Nat) : Established :=
  { em.record (.tracked senderPk seq (em.ratchetEpoch senderPk)) with
      senderRatchets := em.senderRatchets.modify senderPk fun ratchet =>
        if ratchet.epochId < epochId || (epochId = ratchet.epochId && ratchet.lastSeq < seq) then
          { ratchet with lastSeq := seq, epochId := epochId }
        else ratchet }

/-- Take a distributed sender key: 72 bytes carry the state of the sender's ratchet, 32
bytes its root. -/
def seedSender (senderPk : PhysicalDevicePk) (epoch : Nat) (payload : Bytes) : Established :=
  if payload.length = 72 then
    let chainKey := Bytes32.ofBytes (payload.take 32)
    let lastSeq := fromBe ((payload.drop 32).take 8)
    { em.record (.seeded senderPk epoch lastSeq) with
        senderKeys := em.senderKeys.insert (senderPk, epoch) ⟨chainKey⟩
        senderRatchets := em.senderRatchets.insert senderPk ⟨lastSeq, ⟨chainKey⟩, none, epoch⟩
        jitHeaders := em.jitHeaders.insert (senderPk, epoch)
          ⟨Bytes32.ofBytes (payload.drop 40)⟩ }
  else if payload.length = 32 then
    { em with
        senderKeys := em.senderKeys.insert (senderPk, epoch) ⟨Bytes32.ofBytes payload⟩ }
  else em

/-- Forget the ratchet of a sender, so that it starts again from the sender key. -/
def resetSender (senderPk : PhysicalDevicePk) : Established :=
  { em with senderRatchets := em.senderRatchets.erase senderPk }

def getSenderLastSeq (senderPk : PhysicalDevicePk) : Nat :=
  match em.senderRatchets.get senderPk with
  | some ratchet => if ratchet.epochId = em.currentEpoch then ratchet.lastSeq else 0
  | none => 0

end Established

end MerkleTox.Core
