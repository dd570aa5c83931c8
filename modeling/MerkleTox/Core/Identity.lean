import MerkleTox.Core.Primitives
import MerkleTox.Library.Delegation
import MerkleTox.Library.LruCache

/-! # The identity manager

`merkle_tox_core::identity`: members, delegation records and revocations of every
conversation, with the recursive search for a chain of delegations from a device
to its logical identity. Hash maps are iterated in insertion order where the
source leaves the order open.

`changes` is a history that the code does not have: the changes made to the tables,
newest first.
-/

namespace MerkleTox.Core

open Library

def maxAuthDepth : Nat := 16
def maxDevicesPerIdentity : Nat := 32
def maxGroupDevices : Nat := 4096

inductive IdentityError
  | invalidSignature
  | expired (expiresAt now : Int)
  | noTrustPath
  | chainTooDeep
  | permissionEscalation
  | tooManyDevices (limit : Nat)
  | tooManyGroupDevices (limit : Nat)
  | conversationIdMismatch
  deriving DecidableEq, Repr

def verifyDelegation [Primitives] (cert : DelegationCertificate) (issuerPk : Bytes32)
    (nowMs : Int) : Except IdentityError Unit :=
  if cert.expiresAt < nowMs then .error (.expired cert.expiresAt nowMs)
  else if Primitives.verify issuerPk (Primitives.delegationSignData cert) cert.signature then
    .ok ()
  else .error .invalidSignature

structure AuthRecord where
  logicalPk : LogicalIdentityPk
  issuerPk : PhysicalDevicePk
  permissions : Permissions
  expiresAt : Int
  authRank : Nat
  authHash : NodeHash
  deriving DecidableEq, Repr

structure RevocationRecord where
  rank : Nat
  revokerSeniority : Seniority
  revocationHash : NodeHash
  deriving DecidableEq, Repr

structure CausalContext where
  evaluatingNodeHash : NodeHash
  adminAncestorHashes : List NodeHash
  deriving DecidableEq, Repr

/-- Active permissions across all heads, for proactive self-checks. -/
def CausalContext.global : CausalContext := ⟨.zero, [.zero]⟩

abbrev DeviceKey := ConversationId × PhysicalDevicePk
abbrev MemberKey := ConversationId × LogicalIdentityPk
abbrev PathKey := ConversationId × PhysicalDevicePk × LogicalIdentityPk × NodeHash

/-- A change of the identity tables, with the arguments it was made with. -/
inductive IdentityChange
  | addMember (conversationId : ConversationId) (logicalPk : LogicalIdentityPk) (role : Nat)
      (joinedAt : Int)
  | dropMember (conversationId : ConversationId) (logicalPk : LogicalIdentityPk)
  | authorize (ctx : CausalContext) (conversationId : ConversationId)
      (logicalPk : LogicalIdentityPk) (cert : DelegationCertificate) (nowMs : Int) (rank : Nat)
      (authHash : NodeHash)
  | revoke (conversationId : ConversationId) (revokerPk : PhysicalDevicePk)
      (revokerLogicalPk : LogicalIdentityPk) (targetDevicePk : PhysicalDevicePk) (rank : Nat)
      (nowMs : Int) (revocationHash : NodeHash)
  deriving DecidableEq, Repr

structure IdentityManager where
  authorizedDevices : AssocMap DeviceKey (List AuthRecord)
  logicalMembers : AssocMap MemberKey (Nat × Int)
  revokedDevices : AssocMap DeviceKey (List RevocationRecord)
  pathCache : LruCache PathKey Int
  changes : List IdentityChange

variable (manager : IdentityManager) (ctx : CausalContext) (conversationId : ConversationId)

namespace IdentityManager

def new : IdentityManager := ⟨.empty, .empty, .empty, .new 1000, []⟩

def recordsOf (devicePk : PhysicalDevicePk) : List AuthRecord :=
  (manager.authorizedDevices.get (conversationId, devicePk)).getD []

def revocationsOf (devicePk : PhysicalDevicePk) : List RevocationRecord :=
  (manager.revokedDevices.get (conversationId, devicePk)).getD []

/-- The device that owns an authorization hash. -/
def deviceOfAuthHash (authHash : NodeHash) : Option PhysicalDevicePk :=
  (manager.authorizedDevices.entries.find? fun entry =>
    entry.1.1 = conversationId && entry.2.any fun record => record.authHash = authHash).map
      fun entry => entry.1.2

/-- Whether two devices revoked each other; zero hashes stand for master keys. -/
def isMutualRevocation (revokerAuthHash targetAuthHash : NodeHash) : Bool :=
  if revokerAuthHash = .zero || targetAuthHash = .zero then false
  else
    match manager.deviceOfAuthHash conversationId revokerAuthHash with
    | some revokerPk =>
        (manager.revocationsOf conversationId revokerPk).any fun revocation =>
          revocation.revokerSeniority.hash = targetAuthHash
    | none => false

def addMember (manager : IdentityManager) (conversationId : ConversationId)
    (logicalPk : LogicalIdentityPk) (role : Nat) (joinedAt : Int) : IdentityManager :=
  { manager with
      logicalMembers := manager.logicalMembers.insert (conversationId, logicalPk)
        (role, joinedAt)
      changes := .addMember conversationId logicalPk role joinedAt :: manager.changes }

/-- The seniority of a revoker: its oldest live record with ADMIN, the master key
before all, and the lowest when it has none. -/
def revokerSeniority (revokerPk : PhysicalDevicePk) (revokerLogicalPk : LogicalIdentityPk)
    (rank : Nat) (nowMs : Int) : Seniority :=
  if revokerPk = revokerLogicalPk.toPhysical then ⟨0, .zero⟩
  else
    (manager.recordsOf conversationId revokerPk).foldl
      (fun best record =>
        if record.logicalPk = revokerLogicalPk && nowMs < record.expiresAt &&
            record.authRank ≤ rank && record.permissions.includes .admin &&
            (Seniority.mk record.authRank record.authHash).lt best then
          ⟨record.authRank, record.authHash⟩
        else best)
      .lowest

def revokeDevice (revokerPk : PhysicalDevicePk) (revokerLogicalPk : LogicalIdentityPk)
    (targetDevicePk : PhysicalDevicePk) (rank : Nat) (nowMs : Int) (revocationHash : NodeHash) :
    IdentityManager :=
  let seniority :=
    manager.revokerSeniority conversationId revokerPk revokerLogicalPk rank nowMs
  let records := manager.revocationsOf conversationId targetDevicePk
  { manager with
      revokedDevices := manager.revokedDevices.insert (conversationId, targetDevicePk)
        (records ++ [⟨rank, seniority, revocationHash⟩])
      pathCache := manager.pathCache.clear
      changes := .revoke conversationId revokerPk revokerLogicalPk targetDevicePk rank nowMs
        revocationHash :: manager.changes }

/-- The devices with a record for a logical identity. -/
def devicesOf (logicalPk : LogicalIdentityPk) : List PhysicalDevicePk :=
  (manager.authorizedDevices.entries.filter fun entry =>
    entry.1.1 = conversationId && entry.2.any fun record => record.logicalPk = logicalPk).map
      fun entry => entry.1.2

/-- Take a member off the list; its devices keep their records. -/
def dropMember (manager : IdentityManager) (conversationId : ConversationId)
    (logicalPk : LogicalIdentityPk) : IdentityManager :=
  { manager with
      logicalMembers := manager.logicalMembers.erase (conversationId, logicalPk)
      changes := .dropMember conversationId logicalPk :: manager.changes }

def removeMember (revokerPk : PhysicalDevicePk) (revokerLogicalPk : LogicalIdentityPk)
    (logicalPk : LogicalIdentityPk) (rank : Nat) (nowMs : Int) (revocationHash : NodeHash) :
    IdentityManager :=
  let removed := manager.dropMember conversationId logicalPk
  (removed.devicesOf conversationId logicalPk).foldl
    (fun manager device => manager.revokeDevice conversationId revokerPk revokerLogicalPk device
      rank nowMs revocationHash)
    removed

/-- The members of a conversation, sorted by key. -/
def listMembers : List (LogicalIdentityPk × Nat × Int) :=
  sortByKey (fun member => member.1.bytes.toNat)
    ((manager.logicalMembers.entries.filter fun entry => entry.1.1 = conversationId).map
      fun entry => (entry.1.2, entry.2))

def getFounder : Option LogicalIdentityPk :=
  (manager.logicalMembers.entries.find? fun entry =>
    entry.1.1 = conversationId && entry.2.1 = 0).map fun entry => entry.1.2

/-- The record is for this identity, unexpired, of no later rank, in the causal
history of the node evaluated and not revoked there by an equal or senior admin. -/
def recordActive (devicePk : PhysicalDevicePk) (logicalPk : LogicalIdentityPk) (nowMs : Int)
    (rank : Nat) (record : AuthRecord) : Bool :=
  record.logicalPk = logicalPk && nowMs < record.expiresAt && record.authRank ≤ rank &&
  (ctx.evaluatingNodeHash = .zero || record.authHash = .zero ||
    ctx.adminAncestorHashes.contains record.authHash) &&
  !(manager.revocationsOf conversationId devicePk).any fun revocation =>
    (revocation.revocationHash = .zero || ctx.evaluatingNodeHash = .zero ||
      ctx.adminAncestorHashes.contains revocation.revocationHash) &&
    revocation.rank ≤ rank &&
    (if manager.isMutualRevocation conversationId revocation.revokerSeniority.hash
        record.authHash then
      revocation.revokerSeniority.le ⟨record.authRank, record.authHash⟩
    else revocation.revokerSeniority.rank ≤ record.authRank)

/-- `i64::MAX`. -/
def i64Max : Int := 2 ^ 63 - 1

/-- The latest expiry of a chain from a device to its identity; the first argument
bounds the length of the chain. -/
def isAuthorizedRecursive (manager : IdentityManager) (ctx : CausalContext)
    (conversationId : ConversationId) (logicalPk : LogicalIdentityPk) (nowMs : Int)
    (rank : Nat) : Nat → PhysicalDevicePk → Option Int
  | 0, _ => none
  | depth + 1, devicePk =>
      if devicePk = logicalPk.toPhysical then some i64Max
      else
        (manager.recordsOf conversationId devicePk).foldl
          (fun best record => combine max best
            (if !manager.recordActive ctx conversationId devicePk logicalPk nowMs rank record then
              none
            else if record.issuerPk = logicalPk.toPhysical then some record.expiresAt
            else
              (manager.isAuthorizedRecursive ctx conversationId logicalPk nowMs rank depth
                record.issuerPk).map fun issuerExpires => min record.expiresAt issuerExpires))
          none

/-- The union over all chains of the permissions common to the links of a chain. -/
def getPermissionsRecursive (manager : IdentityManager) (ctx : CausalContext)
    (conversationId : ConversationId) (logicalPk : LogicalIdentityPk) (nowMs : Int)
    (rank : Nat) : Nat → PhysicalDevicePk → Option Permissions
  | 0, _ => none
  | depth + 1, devicePk =>
      if devicePk = logicalPk.toPhysical then some .all
      else
        (manager.recordsOf conversationId devicePk).foldl
          (fun union record => combine (· ||| ·) union
            (if !manager.recordActive ctx conversationId devicePk logicalPk nowMs rank record then
              none
            else if record.issuerPk = logicalPk.toPhysical then some record.permissions
            else
              (manager.getPermissionsRecursive ctx conversationId logicalPk nowMs rank depth
                record.issuerPk).map fun issuerPerms => record.permissions &&& issuerPerms))
          none

def getPermissions (devicePk : PhysicalDevicePk) (logicalPk : LogicalIdentityPk) (nowMs : Int)
    (rank : Nat) : Option Permissions :=
  manager.getPermissionsRecursive ctx conversationId logicalPk nowMs rank (maxAuthDepth + 1)
    devicePk

def isAuthorized (devicePk : PhysicalDevicePk) (logicalPk : LogicalIdentityPk) (nowMs : Int)
    (rank : Nat) : Bool × IdentityManager :=
  if devicePk = logicalPk.toPhysical then (true, manager)
  else
    let key := (conversationId, devicePk, logicalPk, ctx.evaluatingNodeHash)
    let (cached, cache) := manager.pathCache.get key
    let looked := { manager with pathCache := cache }
    if cached.any (nowMs < ·) then (true, looked)
    else
      match manager.isAuthorizedRecursive ctx conversationId logicalPk nowMs rank
          (maxAuthDepth + 1) devicePk with
      | some expiresAt => (true, { looked with pathCache := looked.pathCache.put key expiresAt })
      | none => (false, looked)

/-- The least number of delegations between a device and its identity. -/
def getAuthDepth (manager : IdentityManager) (conversationId : ConversationId)
    (logicalPk : LogicalIdentityPk) (rank : Nat) : Nat → PhysicalDevicePk → Option Nat
  | 0, _ => none
  | depth + 1, devicePk =>
      if devicePk = logicalPk.toPhysical then some 0
      else
        (manager.recordsOf conversationId devicePk).foldl
          (fun least record =>
            if record.logicalPk = logicalPk && record.authRank ≤ rank then
              combine min least
                ((manager.getAuthDepth conversationId logicalPk rank depth record.issuerPk).map
                  (· + 1))
            else least)
          none

/-- Record an authorization under a device, once. -/
def pushRecord (devicePk : PhysicalDevicePk) (record : AuthRecord) : IdentityManager :=
  let records := manager.recordsOf conversationId devicePk
  { manager with
      authorizedDevices := manager.authorizedDevices.insert (conversationId, devicePk)
        (if records.contains record then records else records ++ [record]) }

section Authorize

variable [Primitives]

/-- The effective permissions of a device that may have issued a certificate: it has
an eligible ADMIN record, it signed the certificate and it holds ADMIN in effect. -/
def issuerPermissions (logicalPk : LogicalIdentityPk) (cert : DelegationCertificate) (nowMs : Int)
    (rank : Nat) (entry : DeviceKey × List AuthRecord) : Option (PhysicalDevicePk × Permissions) :=
  if entry.1.1 = conversationId &&
      entry.2.any (fun record => record.logicalPk = logicalPk && nowMs < record.expiresAt &&
        record.authRank ≤ rank && record.permissions.includes .admin) &&
      (verifyDelegation cert entry.1.2.bytes nowMs).isOk then
    match manager.getPermissionsRecursive ctx conversationId logicalPk nowMs rank
        (maxAuthDepth + 1) entry.1.2 with
    | some effective => if effective.includes .admin then some (entry.1.2, effective) else none
    | none => none
  else none

def authorizeDevice (logicalPk : LogicalIdentityPk) (cert : DelegationCertificate) (nowMs : Int)
    (rank : Nat) (authHash : NodeHash) :
    Except IdentityError Unit × IdentityManager :=
  let cleared := { manager with
    pathCache := manager.pathCache.clear
    changes := .authorize ctx conversationId logicalPk cert nowMs rank authHash ::
      manager.changes }
  if cert.conversationId ≠ conversationId then (.error .conversationIdMismatch, cleared)
  else if (verifyDelegation cert logicalPk.bytes nowMs).isOk then
    (.ok (), cleared.pushRecord conversationId cert.devicePk
      { logicalPk := logicalPk
        issuerPk := logicalPk.toPhysical
        permissions := cert.permissions
        expiresAt := cert.expiresAt
        authRank := rank
        authHash := authHash })
  else
    match cleared.authorizedDevices.entries.findSome?
        (cleared.issuerPermissions ctx conversationId logicalPk cert nowMs rank) with
    | none => (.error .noTrustPath, cleared)
    | some (issuer, issuerPerms) =>
        let depth := (cleared.getAuthDepth conversationId logicalPk rank (maxAuthDepth + 1)
          issuer).getD 0
        if !issuerPerms.includes cert.permissions then (.error .permissionEscalation, cleared)
        else if depth + 1 > maxAuthDepth then (.error .chainTooDeep, cleared)
        else if (cleared.devicesOf conversationId logicalPk).length ≥ maxDevicesPerIdentity then
          (.error (.tooManyDevices maxDevicesPerIdentity), cleared)
        else if (cleared.authorizedDevices.entries.filter
            fun entry => entry.1.1 = conversationId).length ≥ maxGroupDevices then
          (.error (.tooManyGroupDevices maxGroupDevices), cleared)
        else
          (.ok (), cleared.pushRecord conversationId cert.devicePk
            { logicalPk := logicalPk
              issuerPk := issuer
              permissions := cert.permissions
              expiresAt := cert.expiresAt
              authRank := rank
              authHash := authHash })

end Authorize

def hasAuthorizationRecord (devicePk : PhysicalDevicePk) : Bool :=
  manager.authorizedDevices.contains (conversationId, devicePk)

/-- The devices that are active now: for each member its authorized devices, or its
own key when it has none. The queries go through the path cache. -/
def listActiveAuthorizedDevices (nowMs : Int) (rank : Nat) :
    List PhysicalDevicePk × IdentityManager :=
  let candidates := (manager.authorizedDevices.keys.filter
    fun key => key.1 = conversationId).map Prod.snd
  let (devices, manager) := (manager.listMembers conversationId).foldl
    (fun (devices, manager) member =>
      let (found, manager) := candidates.foldl
        (fun (found, manager) devicePk =>
          let (authorized, manager) :=
            manager.isAuthorized ctx conversationId devicePk member.1 nowMs rank
          (if authorized then found ++ [devicePk] else found, manager))
        ([], manager)
      (devices ++ if found.isEmpty then [member.1.toPhysical] else found, manager))
    (([] : List PhysicalDevicePk), manager)
  ((sortByKey (fun devicePk => devicePk.bytes.toNat) devices).dedup, manager)

def getAdminSeniority (devicePk : PhysicalDevicePk) : Option Seniority :=
  ((manager.recordsOf conversationId devicePk).filter
    fun record => record.permissions.includes .admin).foldl
      (fun best record =>
        let seniority := Seniority.mk record.authRank record.authHash
        match best with
        | some best => if seniority.lt best then some seniority else some best
        | none => some seniority)
      none

def listAuthorizedDevices : List PhysicalDevicePk :=
  sortByKey (fun devicePk => devicePk.bytes.toNat)
    ((manager.authorizedDevices.keys.filter fun key => key.1 = conversationId).map Prod.snd)

/-- Every authorized pair of device and identity, members' own keys included. -/
def listAllAuthorizedSenderPairs : List (PhysicalDevicePk × LogicalIdentityPk) :=
  let recorded := (manager.authorizedDevices.entries.filter
    fun entry => entry.1.1 = conversationId).flatMap
      fun entry => entry.2.map fun record => (entry.1.2, record.logicalPk)
  let own := (manager.logicalMembers.keys.filter fun key => key.1 = conversationId).map
    fun key => (key.2.toPhysical, key.2)
  (sortByKey (fun pair => pair.1.bytes.toNat * 2 ^ 256 + pair.2.bytes.toNat)
    (recorded ++ own)).dedup

end IdentityManager

/-- The calls of an identity manager that change it, its cache included. -/
inductive IdentityCommand
  | addMember (conversationId : ConversationId) (logicalPk : LogicalIdentityPk) (role : Nat)
      (joinedAt : Int)
  | removeMember (conversationId : ConversationId) (revokerPk : PhysicalDevicePk)
      (revokerLogicalPk logicalPk : LogicalIdentityPk) (rank : Nat) (nowMs : Int)
      (revocationHash : NodeHash)
  | authorizeDevice (ctx : CausalContext) (conversationId : ConversationId)
      (logicalPk : LogicalIdentityPk) (cert : DelegationCertificate) (nowMs : Int) (rank : Nat)
      (authHash : NodeHash)
  | revokeDevice (conversationId : ConversationId) (revokerPk : PhysicalDevicePk)
      (revokerLogicalPk : LogicalIdentityPk) (targetDevicePk : PhysicalDevicePk) (rank : Nat)
      (nowMs : Int) (revocationHash : NodeHash)
  | isAuthorized (ctx : CausalContext) (conversationId : ConversationId)
      (devicePk : PhysicalDevicePk) (logicalPk : LogicalIdentityPk) (nowMs : Int) (rank : Nat)

namespace IdentityManager

def step [Primitives] (manager : IdentityManager) : IdentityCommand → IdentityManager
  | .addMember conversationId logicalPk role joinedAt =>
      manager.addMember conversationId logicalPk role joinedAt
  | .removeMember conversationId revokerPk revokerLogicalPk logicalPk rank nowMs
      revocationHash =>
      manager.removeMember conversationId revokerPk revokerLogicalPk logicalPk rank nowMs
        revocationHash
  | .authorizeDevice ctx conversationId logicalPk cert nowMs rank authHash =>
      (manager.authorizeDevice ctx conversationId logicalPk cert nowMs rank authHash).2
  | .revokeDevice conversationId revokerPk revokerLogicalPk targetDevicePk rank nowMs
      revocationHash =>
      manager.revokeDevice conversationId revokerPk revokerLogicalPk targetDevicePk rank nowMs
        revocationHash
  | .isAuthorized ctx conversationId devicePk logicalPk nowMs rank =>
      (manager.isAuthorized ctx conversationId devicePk logicalPk nowMs rank).2

end IdentityManager

end MerkleTox.Core
