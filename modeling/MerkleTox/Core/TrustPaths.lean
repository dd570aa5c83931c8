import MerkleTox.Core.Delegation

/-! # Trust paths

A trust path leads from a device to the master key of its identity by records that all
count in a causal context, at a time and a rank. The recursions of the identity manager
find the permissions that paths carry and tell whether there is a path. They stop one
record later than the limit that authorizations are checked against.
-/

namespace MerkleTox.Core

open Library

namespace IdentityManager

variable (manager : IdentityManager) (ctx : CausalContext) (conversationId : ConversationId)
variable (logicalPk : LogicalIdentityPk) (nowMs : Int) (rank : Nat)

/-- The device holds the record, for the identity, and it is unexpired, effective, in the
causal context and unrevoked. -/
structure Counts (devicePk : PhysicalDevicePk) (record : AuthRecord) : Prop where
  held : record ∈ manager.recordsOf conversationId devicePk
  identity : record.logicalPk = logicalPk
  unexpired : nowMs < record.expiresAt
  effective : record.authRank ≤ rank
  inContext : ctx.evaluatingNodeHash = .zero ∨ InHistory ctx record.authHash
  unrevoked : ∀ revocation ∈ manager.revocationsOf conversationId devicePk,
    manager.revokes ctx conversationId rank record revocation = false

/-- The records of a path, from the one the device holds to one the master key issued. -/
inductive TrustPath : PhysicalDevicePk → List AuthRecord → Prop
  | direct {devicePk : PhysicalDevicePk} {record : AuthRecord}
      (hcounts : Counts manager ctx conversationId logicalPk nowMs rank devicePk record)
      (hissuer : record.issuerPk = logicalPk.toPhysical) : TrustPath devicePk [record]
  | delegated {devicePk : PhysicalDevicePk} {record : AuthRecord} {rest : List AuthRecord}
      (hcounts : Counts manager ctx conversationId logicalPk nowMs rank devicePk record)
      (hrest : TrustPath record.issuerPk rest) : TrustPath devicePk (record :: rest)

/-- Permissions that contain a bit. -/
def HasBit (bit : Nat) (permissions : Permissions) : Prop := permissions.getLsbD bit = true

/-- A bit is granted if and only if a path within the depth limit carries it, and a device is
authorized if and only if it has a path within the limit. -/
structure PathsDecide (devicePk : PhysicalDevicePk) : Prop where
  permissions : ∀ bit,
    (∃ granted, manager.getPermissions ctx conversationId devicePk logicalPk nowMs rank =
        some granted ∧ HasBit bit granted) ↔
      ∃ path, manager.TrustPath ctx conversationId logicalPk nowMs rank devicePk path ∧
        path.length ≤ maxAuthDepth ∧ ∀ record ∈ path, HasBit bit record.permissions
  authorized :
    (manager.isAuthorizedRecursive ctx conversationId logicalPk nowMs rank (maxAuthDepth + 1)
        devicePk).isSome ↔
      ∃ path, manager.TrustPath ctx conversationId logicalPk nowMs rank devicePk path ∧
        path.length ≤ maxAuthDepth

/-- A path of one record too many carries no bit that no path within the limit carries, and
is not the only one. -/
def NoneTooDeep (devicePk : PhysicalDevicePk) : Prop :=
  ∀ path, manager.TrustPath ctx conversationId logicalPk nowMs rank devicePk path →
    path.length = maxAuthDepth + 1 →
      (∃ shorter, manager.TrustPath ctx conversationId logicalPk nowMs rank devicePk shorter ∧
        shorter.length ≤ maxAuthDepth) ∧
      ∀ bit, (∀ record ∈ path, HasBit bit record.permissions) →
        ∃ shorter, manager.TrustPath ctx conversationId logicalPk nowMs rank devicePk shorter ∧
          shorter.length ≤ maxAuthDepth ∧ ∀ record ∈ shorter, HasBit bit record.permissions

variable {manager ctx conversationId logicalPk nowMs rank} {devicePk : PhysicalDevicePk}

/-! ## Paths as chains of active records -/

theorem mem_activeRecords {record : AuthRecord} :
    record ∈ manager.activeRecords ctx conversationId logicalPk nowMs rank devicePk ↔
      manager.Counts ctx conversationId logicalPk nowMs rank devicePk record := by
  rw [activeRecords, List.mem_filter, recordActive_eq, Bool.and_eq_true, Bool.not_eq_true',
    List.any_eq_false]
  simp only [recordEligible, Bool.and_eq_true, Bool.or_eq_true, decide_eq_true_eq,
    List.contains_iff_mem]
  constructor
  · rintro ⟨hheld, ⟨⟨⟨hidentity, hunexpired⟩, heffective⟩, hcontext⟩, hunrevoked⟩
    exact ⟨hheld, hidentity, hunexpired, heffective, or_assoc.mp hcontext,
      fun revocation hmem => Bool.eq_false_iff.mpr (hunrevoked revocation hmem)⟩
  · intro h
    exact ⟨h.held, ⟨⟨⟨h.identity, h.unexpired⟩, h.effective⟩, or_assoc.mpr h.inContext⟩,
      fun revocation hmem => Bool.eq_false_iff.mp (h.unrevoked revocation hmem)⟩

/-- However chains are valued, those of active records are the trust paths. -/
theorem chain_iff_trustPath {Value : Type}
    {delegation : Delegation PhysicalDevicePk AuthRecord Value}
    (hmaster : ∀ devicePk, delegation.isMaster devicePk = true ↔ devicePk = logicalPk.toPhysical)
    (hissuer : delegation.issuer = AuthRecord.issuerPk) {path : List AuthRecord} :
    delegation.Chain (manager.activeRecords ctx conversationId logicalPk nowMs rank) devicePk
        path ↔
      manager.TrustPath ctx conversationId logicalPk nowMs rank devicePk path := by
  constructor
  · intro h
    induction h with
    | last hmem hlast =>
        rw [hmaster, hissuer] at hlast
        exact .direct (mem_activeRecords.mp hmem) hlast
    | cons hmem _ ih =>
        rw [hissuer] at ih
        exact .delegated (mem_activeRecords.mp hmem) ih
  · intro h
    induction h with
    | direct hcounts hlast =>
        refine .last (mem_activeRecords.mpr hcounts) ?_
        rw [hmaster, hissuer]
        exact hlast
    | delegated hcounts _ ih =>
        rw [← hissuer] at ih
        exact .cons (mem_activeRecords.mpr hcounts) ih

theorem permissions_isShown (bit : Nat) : (permissions logicalPk).IsShown (HasBit bit) where
  merge left right := by
    simp only [permissions, HasBit, BitVec.getLsbD_or, Bool.or_eq_true]
  extend record issuerPerms := by
    simp only [permissions, HasBit, BitVec.getLsbD_and, Bool.and_eq_true]

/-! ## What the recursions find -/

theorem getPermissionsRecursive_hasBit (hdevice : devicePk ≠ logicalPk.toPhysical)
    (depth bit : Nat) :
    (∃ granted, manager.getPermissionsRecursive ctx conversationId logicalPk nowMs rank depth
        devicePk = some granted ∧ HasBit bit granted) ↔
      ∃ path, manager.TrustPath ctx conversationId logicalPk nowMs rank devicePk path ∧
        path.length ≤ depth ∧ ∀ record ∈ path, HasBit bit record.permissions := by
  rw [getPermissionsRecursive_eq]
  refine (Delegation.shows_value_iff (permissions_isShown bit) depth
    (decide_eq_false hdevice)).trans (exists_congr fun path => and_congr_left fun _ => ?_)
  exact chain_iff_trustPath (fun _ => decide_eq_true_iff) rfl

/-- A device has a value, whatever chains are valued by, if and only if it has a path. -/
theorem value_isSome_iff {Value : Type}
    {delegation : Delegation PhysicalDevicePk AuthRecord Value}
    (hmaster : ∀ devicePk, delegation.isMaster devicePk = true ↔ devicePk = logicalPk.toPhysical)
    (hissuer : delegation.issuer = AuthRecord.issuerPk) (hdevice : devicePk ≠ logicalPk.toPhysical)
    (depth : Nat) :
    (delegation.value (manager.activeRecords ctx conversationId logicalPk nowMs rank) depth
        devicePk).isSome ↔
      ∃ path, manager.TrustPath ctx conversationId logicalPk nowMs rank devicePk path ∧
        path.length ≤ depth := by
  have hother : delegation.isMaster devicePk = false :=
    Bool.eq_false_iff.mpr fun h => hdevice ((hmaster devicePk).mp h)
  rw [Delegation.isSome_iff_shows,
    Delegation.shows_value_iff delegation.isShown_true depth hother]
  simp only [implies_true, and_true]
  exact exists_congr fun path => and_congr_left fun _ => chain_iff_trustPath hmaster hissuer

theorem isAuthorizedRecursive_isSome (hdevice : devicePk ≠ logicalPk.toPhysical) (depth : Nat) :
    (manager.isAuthorizedRecursive ctx conversationId logicalPk nowMs rank depth
        devicePk).isSome ↔
      ∃ path, manager.TrustPath ctx conversationId logicalPk nowMs rank devicePk path ∧
        path.length ≤ depth := by
  rw [isAuthorizedRecursive_eq]
  exact value_isSome_iff (fun _ => decide_eq_true_iff) rfl hdevice depth

/-- The recursions decide by the paths within the limit if and only if no path matters that
is one record longer. -/
theorem pathsDecide_iff (manager : IdentityManager) (ctx : CausalContext)
    (conversationId : ConversationId) (logicalPk : LogicalIdentityPk) (nowMs : Int) (rank : Nat)
    (devicePk : PhysicalDevicePk) (hdevice : devicePk ≠ logicalPk.toPhysical) :
    manager.PathsDecide ctx conversationId logicalPk nowMs rank devicePk ↔
      manager.NoneTooDeep ctx conversationId logicalPk nowMs rank devicePk := by
  constructor
  · intro h path hpath hlength
    constructor
    · rw [← h.authorized, isAuthorizedRecursive_isSome hdevice]
      exact ⟨path, hpath, hlength.le⟩
    · intro bit hall
      rw [← h.permissions, getPermissions, getPermissionsRecursive_hasBit hdevice]
      exact ⟨path, hpath, hlength.le, hall⟩
  · intro h
    constructor
    · intro bit
      rw [getPermissions, getPermissionsRecursive_hasBit hdevice]
      constructor
      · rintro ⟨path, hpath, hlength, hall⟩
        rcases Nat.le_or_eq_of_le_succ hlength with hwithin | hdeep
        · exact ⟨path, hpath, hwithin, hall⟩
        · exact (h path hpath hdeep).2 bit hall
      · rintro ⟨path, hpath, hwithin, hall⟩
        exact ⟨path, hpath, Nat.le_succ_of_le hwithin, hall⟩
    · rw [isAuthorizedRecursive_isSome hdevice]
      constructor
      · rintro ⟨path, hpath, hlength⟩
        rcases Nat.le_or_eq_of_le_succ hlength with hwithin | hdeep
        · exact ⟨path, hpath, hwithin⟩
        · exact (h path hpath hdeep).1
      · rintro ⟨path, hpath, hwithin⟩
        exact ⟨path, hpath, Nat.le_succ_of_le hwithin⟩

end IdentityManager

namespace TrustPaths

open Reference IdentityManager

/-! ## A path that is too deep -/

/-- A certificate signed with a key. -/
def certify (issuer : Bytes32) (devicePk : PhysicalDevicePk) (expiresAt : Int) :
    DelegationCertificate :=
  let unsigned : DelegationCertificate :=
    { version := 1
      conversationId := room
      devicePk := devicePk
      permissions := .all
      expiresAt := expiresAt
      signature := ⟨0⟩ }
  { unsigned with signature := Reference.signature issuer (Primitives.delegationSignData unsigned) }

def authorize (issuer : Bytes32) (device : Nat) (expiresAt : Int) : IdentityCommand :=
  .authorizeDevice .global room ⟨1⟩ (certify issuer ⟨BitVec.ofNat 256 device⟩ expiresAt) 1000
    device ⟨BitVec.ofNat 256 (1000 + device)⟩

/-- The founder authorizes the device 2, and each device up to 16 the next one. The founder
also authorizes the device 17 for a while, which authorizes the device 18. -/
def descent : IdentityManager :=
  runFrom step .new
    ((List.range 16).map
        (fun index => authorize (BitVec.ofNat 256 (index + 1)) (index + 2) 100000) ++
      [authorize 1 17 2000, authorize 17 18 100000])

/-- When the founder's record has expired the only path of the device 18 has 17 records; it
is still found, and carries every permission. -/
theorem descent_too_deep :
    ¬ descent.PathsDecide .global room ⟨1⟩ 5000 20 ⟨18⟩ := by
  intro h
  have hdevice : (⟨18⟩ : PhysicalDevicePk) ≠ LogicalIdentityPk.toPhysical ⟨1⟩ := by decide
  have hfound : (descent.isAuthorizedRecursive .global room ⟨1⟩ 5000 20 (maxAuthDepth + 1)
      ⟨18⟩).isSome = true := by
    decide +kernel
  have hnone : (descent.isAuthorizedRecursive .global room ⟨1⟩ 5000 20 maxAuthDepth
      ⟨18⟩).isSome = false := by
    decide +kernel
  have hpath := h.authorized.mp hfound
  rw [← isAuthorizedRecursive_isSome hdevice, hnone] at hpath
  cases hpath

/-- The founder authorizes the device 2. -/
def direct : IdentityManager := runFrom step .new [authorize 1 2 100000]

theorem pathsDecide_direct : direct.PathsDecide .global room ⟨1⟩ 5000 20 ⟨2⟩ := by
  refine (pathsDecide_iff direct .global room ⟨1⟩ 5000 20 ⟨2⟩ (by decide)).mpr ?_
  intro path hpath hlength
  have hmaster : direct.recordsOf room ⟨1⟩ = [] := by decide +kernel
  have hissuers : (direct.recordsOf room ⟨2⟩).all (fun record => record.issuerPk = ⟨1⟩) = true := by
    decide +kernel
  -- the only record was issued by the master key, which has none itself
  cases hpath with
  | direct _ _ =>
      rw [List.length_singleton] at hlength
      exact absurd hlength (by decide)
  | delegated hcounts hrest =>
      have hissuer := of_decide_eq_true (List.all_eq_true.mp hissuers _ hcounts.held)
      rw [hissuer] at hrest
      cases hrest with
      | direct hcounts _ | delegated hcounts _ =>
          have hheld := hcounts.held
          rw [hmaster] at hheld
          cases hheld

end TrustPaths

end MerkleTox.Core
