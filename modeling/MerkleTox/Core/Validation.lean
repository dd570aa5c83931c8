import MerkleTox.Core.Store

/-! # Structural rules of nodes

`MerkleNode::validate`: size limits, the admissible form of authentication with the
check of device signatures, the rank rule, chain isolation of the admin track, the
limits on soft anchors and the ancestry trust cap.
-/

namespace MerkleTox.Core

open Library Proto

inductive ValidationError
  | maxParentsExceeded (actual max : Nat)
  | maxMetadataExceeded (actual max : Nat)
  | tooManySpeculativeNodes
  | tooManyVerifiedNodes
  | powInvalid
  | emptyDag
  | ancestryCapExceeded (actual max : Nat)
  | topologicalRankViolation (actual expected : Nat)
  | missingParents (missing : List NodeHash)
  | invalidAdminSignature
  | genesisMacWithParents
  | adminCannotHaveContentParent
  | contentNodeShouldUseMac
  | adminNodeShouldUseSignature
  | duplicateParent (parent : NodeHash)
  | invalidSequenceNumber (actual last : Nat)
  | maxMessageSizeExceeded (actual max : Nat)
  | softAnchorInvalidParent
  | softAnchorChainingCapExceeded (actual max : Nat)
  | invalidEditTarget
  | editAuthorMismatch
  | redactionPermissionDenied
  | invalidReactionTarget
  | invalidLegacyBridgeDedup
  deriving DecidableEq, Repr

def maxParents : Nat := 16
def maxAncestryHops : Nat := 500
def maxMetadataSize : Nat := 32 * 1024
def maxMessageSize : Nat := 1048576
def maxSoftAnchorChain : Nat := 3

/-- The first parent that repeats an earlier one. -/
def firstDuplicate : List NodeHash → List NodeHash → Option NodeHash
  | _, [] => none
  | seen, parent :: rest =>
      if seen.contains parent then some parent else firstDuplicate (parent :: seen) rest

namespace MerkleNode

section Signatures

variable [Primitives]

/-- The proof of work of a genesis node; a genesis with a MAC needs none. -/
def validatePow (node : MerkleNode) : Bool :=
  match node.content with
  | .control (.genesis title creatorPk permissions flags createdAt powNonce) =>
      match node.authentication with
      | .ephemeralSignature _ => true
      | .signature _ =>
          (powNonce ≠ 0 && Primitives.validatePowV2 creatorPk
            (.genesis title creatorPk permissions flags createdAt powNonce)) ||
          Primitives.validatePow creatorPk (hash node) node.powNonce
  | _ => true

def verifyAdminSignature (node : MerkleNode) : Bool :=
  match node.authentication with
  | .signature signature =>
      Primitives.verify node.senderPk.bytes (Primitives.serializeForAuth node) signature
  | .ephemeralSignature _ => node.content.isGenesis && node.parents.isEmpty

end Signatures

/-- Content nodes that may carry a device signature. -/
def allowsDeviceSig (node : MerkleNode) : Bool :=
  node.content.isSenderKeyDistribution ||
    (node.content.isControl && node.nodeType = .content)

/-- Admin nodes carry a device signature, a genesis alternatively a MAC; content
nodes carry an ephemeral signature, some of them alternatively a device signature. -/
def validateAuthentication (node : MerkleNode) : Except ValidationError Unit :=
  match node.authentication, node.nodeType with
  | .signature _, .admin => .ok ()
  | .ephemeralSignature _, .content => .ok ()
  | .signature _, .content =>
      if node.allowsDeviceSig then .ok () else .error .contentNodeShouldUseMac
  | .ephemeralSignature _, .admin =>
      if !node.content.isGenesis then .error .adminNodeShouldUseSignature
      else if !node.parents.isEmpty then .error .genesisMacWithParents
      else .ok ()

/-- Whether the device signature of the node is subject to verification. -/
def isDeviceAuthenticated (node : MerkleNode) : Bool :=
  node.nodeType = .admin || (node.allowsDeviceSig && node.authentication.isSignature)

section Rules

variable [Primitives]

def validateForm (node : MerkleNode) : Except ValidationError Unit :=
  if maxParents < node.parents.length then
    .error (.maxParentsExceeded node.parents.length maxParents)
  else
    match firstDuplicate [] node.parents with
    | some parent => .error (.duplicateParent parent)
    | none =>
        let totalSize := node.metadata.length + Primitives.contentSize node.content
        if maxMetadataSize < node.metadata.length then
          .error (.maxMetadataExceeded node.metadata.length maxMetadataSize)
        else if maxMessageSize < totalSize then
          .error (.maxMessageSizeExceeded totalSize maxMessageSize)
        else node.validateAuthentication

def validateSignature (node : MerkleNode) : Except ValidationError Unit :=
  if node.isDeviceAuthenticated then
    if !node.validatePow then .error .powInvalid
    else if !node.verifyAdminSignature then .error .invalidAdminSignature
    else .ok ()
  else .ok ()

end Rules

def validateRank (node : MerkleNode) (overlay : Overlay) : Except ValidationError Unit :=
  let missing := node.parents.filter fun parent => (overlay.getRank parent).isNone
  let expected :=
    if node.parents.isEmpty then 0
    else wrap64 ((node.parents.filterMap overlay.getRank).foldl max 0 + 1)
  if !missing.isEmpty then .error (.missingParents missing)
  else if node.topologicalRank ≠ expected then
    .error (.topologicalRankViolation node.topologicalRank expected)
  else .ok ()

/-- Admin nodes other than soft anchors have admin parents only. -/
def validateIsolation (node : MerkleNode) (overlay : Overlay) : Except ValidationError Unit :=
  if node.nodeType = .admin && !node.content.isSoftAnchor then
    match node.parents.find? fun parent => overlay.getNodeType parent ≠ some .admin with
    | none => .ok ()
    | some parent =>
        if (overlay.getNodeType parent).isSome then .error .adminCannotHaveContentParent
        else .error (.missingParents [parent])
  else .ok ()

def validateSoftAnchor (node : MerkleNode) (overlay : Overlay) : Except ValidationError Unit :=
  match node.content with
  | .control (.softAnchor basisHash _) =>
      if node.parents ≠ [basisHash] then .error .softAnchorInvalidParent
      else
        match overlay.getSoftAnchorChainLength basisHash with
        | some length =>
            if maxSoftAnchorChain < length + 1 then
              .error (.softAnchorChainingCapExceeded (length + 1) maxSoftAnchorChain)
            else .ok ()
        | none => .ok ()
  | _ => .ok ()

/-- The least distance of the parents to the admin track, or a parent without one. -/
def parentDistance (overlay : Overlay) :
    List NodeHash → Nat → AssocMap NodeHash Nat →
      Except ValidationError Nat × AssocMap NodeHash Nat
  | [], least, known => (.ok least, known)
  | parent :: rest, least, known =>
      let (distance, known) :=
        overlay.adminDistance (overlay.cache.nodes.size + 1) known parent
      match distance with
      | some distance => parentDistance overlay rest (min least distance) known
      | none => (.error (.missingParents [parent]), known)

def validateAncestry (node : MerkleNode) (overlay : Overlay) :
    Except ValidationError Unit × AssocMap NodeHash Nat :=
  if node.nodeType = .content && !node.parents.isEmpty then
    match parentDistance overlay node.parents u64Max overlay.cache.adminDistances with
    | (.ok least, known) =>
        if maxAncestryHops ≤ least then
          (.error (.ancestryCapExceeded (least + 1) maxAncestryHops), known)
        else (.ok (), known)
    | (.error error, known) => (.error error, known)
  else (.ok (), overlay.cache.adminDistances)

/-- All rules in the order of the source, with the distances learnt on the way. -/
def validate [Primitives] (node : MerkleNode) (overlay : Overlay) :
    Except ValidationError Unit × AssocMap NodeHash Nat :=
  let earlier := do
    node.validateForm
    node.validateSignature
    node.validateRank overlay
    node.validateIsolation overlay
    node.validateSoftAnchor overlay
  match earlier with
  | .ok () => node.validateAncestry overlay
  | .error error => (.error error, overlay.cache.adminDistances)

end MerkleNode

end MerkleTox.Core
