import Mathlib.Data.List.Sort
import MerkleTox.Library.AssocMap
import MerkleTox.Proto.MessagePack

/-! # Keys, certificates and nodes

The data of `merkle_tox_core::dag`. A 32-byte key or hash is a word of 256 bits,
its bytes read big-endian, so the order of the words is the byte order of the
source. The sequence number of a node is a 64-bit word; epochs, counters and ranks
are natural numbers, reduced modulo `2 ^ 64` where the source computes with `u64`
and the result can wrap. Timestamps are integers.
-/

namespace MerkleTox.Core

open Proto

abbrev Bytes32 := BitVec 256

structure ConversationId where
  bytes : Bytes32
  deriving DecidableEq, Repr

structure NodeHash where
  bytes : Bytes32
  deriving DecidableEq, Repr

structure LogicalIdentityPk where
  bytes : Bytes32
  deriving DecidableEq, Repr

structure PhysicalDevicePk where
  bytes : Bytes32
  deriving DecidableEq, Repr

structure KConv where
  bytes : Bytes32
  deriving DecidableEq, Repr

structure ChainKey where
  bytes : Bytes32
  deriving DecidableEq, Repr

structure MessageKey where
  bytes : Bytes32
  deriving DecidableEq, Repr

structure SenderKey where
  bytes : Bytes32
  deriving DecidableEq, Repr

structure HeaderKey where
  bytes : Bytes32
  deriving DecidableEq, Repr

structure EphemeralX25519Pk where
  bytes : Bytes32
  deriving DecidableEq, Repr

structure EphemeralX25519Sk where
  bytes : Bytes32
  deriving DecidableEq, Repr

structure EphemeralSigningPk where
  bytes : Bytes32
  deriving DecidableEq, Repr

structure EphemeralSigningSk where
  bytes : Bytes32
  deriving DecidableEq, Repr

structure Ed25519Signature where
  bytes : BitVec 512
  deriving DecidableEq, Repr

/-- The stable `sort_by_key` of the source. -/
def sortByKey {α : Type} (key : α → Nat) (list : List α) : List α :=
  list.insertionSort fun left right => key left ≤ key right

def NodeHash.zero : NodeHash := ⟨0⟩

/-- `NodeHash::from([0xFF; 32])`. -/
def NodeHash.max : NodeHash := ⟨BitVec.allOnes 256⟩

def LogicalIdentityPk.toPhysical (pk : LogicalIdentityPk) : PhysicalDevicePk := ⟨pk.bytes⟩

def PhysicalDevicePk.toLogical (pk : PhysicalDevicePk) : LogicalIdentityPk := ⟨pk.bytes⟩

def u64Max : Nat := 2 ^ 64 - 1

/-- `u64` addition and shifts, as they wrap. -/
def wrap64 (n : Nat) : Nat := n % 2 ^ 64

/-- The key epoch of a sequence number, `seq >> 32`. -/
def epochOf (seq : Nat) : Nat := seq / 2 ^ 32

/-- The counter within the epoch, `seq & 0xFFFFFFFF`. -/
def counterOf (seq : Nat) : Nat := seq % 2 ^ 32

/-- `(epoch << 32) | counter`, for a 32-bit counter. -/
def seqOf (epoch counter : Nat) : Nat := wrap64 (epoch * 2 ^ 32) + counter % 2 ^ 32

/-- `bitflags Permissions: u32`. -/
abbrev Permissions := BitVec 32

namespace Permissions

def none : Permissions := 0
def admin : Permissions := 1
def message : Permissions := 2
def sync : Permissions := 4
def all : Permissions := admin ||| message ||| sync

/-- `actual.contains(required)`. -/
def includes (actual required : Permissions) : Bool := actual &&& required = required

end Permissions

/-- A seniority tuple `(rank, hash)`, compared lexicographically. -/
structure Seniority where
  rank : Nat
  hash : NodeHash
  deriving DecidableEq, Repr

namespace Seniority

def lt (left right : Seniority) : Bool :=
  left.rank < right.rank || (left.rank = right.rank && left.hash.bytes < right.hash.bytes)

def le (left right : Seniority) : Bool := !right.lt left

/-- `(u64::MAX, NodeHash::from([0xFF; 32]))`. -/
def lowest : Seniority := ⟨u64Max, .max⟩

end Seniority

structure DelegationCertificate where
  version : Nat
  conversationId : ConversationId
  devicePk : PhysicalDevicePk
  permissions : Permissions
  expiresAt : Int
  signature : Ed25519Signature
  deriving DecidableEq, Repr

structure MemberInfo where
  publicKey : LogicalIdentityPk
  role : Nat
  joinedAt : Int
  deriving DecidableEq, Repr

structure InviteAction where
  inviteePk : LogicalIdentityPk
  role : Nat
  deriving DecidableEq, Repr

structure SignedPreKey where
  publicKey : EphemeralX25519Pk
  signature : Ed25519Signature
  expiresAt : Int
  deriving DecidableEq, Repr

structure WrappedKey where
  recipientPk : PhysicalDevicePk
  opkId : NodeHash
  ciphertext : Bytes
  deriving DecidableEq, Repr

structure SnapshotData where
  basisHash : NodeHash
  members : List MemberInfo
  lastSeqNumbers : List (PhysicalDevicePk × Nat)
  deriving DecidableEq, Repr

inductive ControlAction
  | genesis (title : String) (creatorPk : LogicalIdentityPk) (permissions : Permissions)
      (flags : BitVec 64) (createdAt : Int) (powNonce : Nat)
  | setTitle (title : String)
  | setTopic (topic : String)
  | invite (invite : InviteAction)
  | leave (logicalPk : LogicalIdentityPk)
  | authorizeDevice (cert : DelegationCertificate)
  | revokeDevice (targetDevicePk : PhysicalDevicePk) (reason : String)
  | announcement (preKeys : List SignedPreKey) (lastResortKey : SignedPreKey)
  | handshakePulse
  | snapshot (data : SnapshotData)
  | anchorSnapshot (data : SnapshotData) (cert : DelegationCertificate)
  | softAnchor (basisHash : NodeHash) (cert : DelegationCertificate)
  deriving DecidableEq, Repr

inductive EmojiSource
  | unicode (text : String)
  | custom (hash : Bytes32) (shortcode : String)
  deriving DecidableEq, Repr

/-- The coordinates of a location are kept as the bits of their `f64`. -/
inductive Content
  | custom (tagId : Nat) (data : Bytes)
  | keyWrap (generation : Nat) (anchorHash : NodeHash) (ephemeralPk : EphemeralX25519Pk)
      (wrappedKeys : List WrappedKey)
  | senderKeyDistribution (ephemeralPk : EphemeralX25519Pk) (wrappedKeys : List WrappedKey)
      (ephemeralSigningPk : EphemeralSigningPk) (disclosedKeys : List EphemeralSigningSk)
  | historyExport (blobHash : NodeHash) (blobSize : Nat) (baoRoot : Option Bytes32)
      (ephemeralPk : EphemeralX25519Pk) (wrappedKeys : List WrappedKey)
  | control (action : ControlAction)
  | text (text : String)
  | blob (hash : NodeHash) (name mimeType : String) (size : Nat) (metadata : Bytes)
  | location (latitude longitude : BitVec 64) (title : Option String)
  | edit (targetHash : NodeHash) (newText : String)
  | reaction (targetHash : NodeHash) (emoji : EmojiSource)
  | redaction (targetHash : NodeHash) (reason : String)
  | legacyBridge (sourcePk : PhysicalDevicePk) (text : String) (messageType : Nat)
      (dedupId : NodeHash)
  | unknown (discriminant : Nat) (data : Bytes)
  deriving DecidableEq, Repr

inductive NodeType
  | admin | content
  deriving DecidableEq, Repr

inductive NodeAuth
  | ephemeralSignature (signature : Ed25519Signature)
  | signature (signature : Ed25519Signature)
  deriving DecidableEq, Repr

structure MerkleNode where
  parents : List NodeHash
  authorPk : LogicalIdentityPk
  senderPk : PhysicalDevicePk
  sequenceNumber : BitVec 64
  topologicalRank : Nat
  networkTimestamp : Int
  content : Content
  metadata : Bytes
  authentication : NodeAuth
  powNonce : Nat
  deriving DecidableEq, Repr

/-- The wire form of a node; its payload and routing are opaque bytes. -/
structure WireNode where
  parents : List NodeHash
  senderHint : BitVec 32
  encryptedRouting : Bytes
  payloadData : Bytes
  topologicalRank : Nat
  flags : BitVec 32
  authentication : NodeAuth
  deriving DecidableEq, Repr

def Content.nodeType : Content → NodeType
  | .keyWrap .. => .admin
  | .control (.genesis ..) => .admin
  | .control (.authorizeDevice _) => .admin
  | .control (.revokeDevice ..) => .admin
  | .control (.snapshot _) => .admin
  | .control (.anchorSnapshot ..) => .admin
  | .control (.softAnchor ..) => .admin
  | _ => .content

namespace Content

def isControl : Content → Bool
  | .control _ => true
  | _ => false

def isKeyWrap : Content → Bool
  | .keyWrap .. => true
  | _ => false

def isSenderKeyDistribution : Content → Bool
  | .senderKeyDistribution .. => true
  | _ => false

def isHistoryExport : Content → Bool
  | .historyExport .. => true
  | _ => false

def isGenesis : Content → Bool
  | .control (.genesis ..) => true
  | _ => false

def isSoftAnchor : Content → Bool
  | .control (.softAnchor ..) => true
  | _ => false

end Content

namespace NodeAuth

def isSignature : NodeAuth → Bool
  | .signature _ => true
  | .ephemeralSignature _ => false

end NodeAuth

namespace MerkleNode

def nodeType (node : MerkleNode) : NodeType := node.content.nodeType

/-- The sequence number as a natural number. -/
def seq (node : MerkleNode) : Nat := node.sequenceNumber.toNat

def epoch (node : MerkleNode) : Nat := epochOf node.seq

/-- Nodes with a cleartext wire form: the admin track, every control action and the
distributions of sender keys. -/
def isExceptionNode (node : MerkleNode) : Bool :=
  node.nodeType = .admin || node.content.isControl || node.content.isSenderKeyDistribution

/-- History exports are encrypted, but with room-wide keys rather than the ratchet. -/
def skipsRatchet (node : MerkleNode) : Bool :=
  node.isExceptionNode || node.content.isHistoryExport

/-- The kinds that `handle_node` lets past its quarantine. -/
def isBootstrap (node : MerkleNode) : Bool :=
  match node.content with
  | .keyWrap .. | .historyExport .. | .senderKeyDistribution .. => true
  | .control (.genesis ..) | .control (.authorizeDevice _) | .control (.anchorSnapshot ..) => true
  | _ => false

end MerkleNode

end MerkleTox.Core
