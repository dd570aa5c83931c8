import MerkleTox.Core.Admission
import MerkleTox.Core.Reference

/-! # Delegation chains of devices

Both recursions of the identity manager value chains of records: the latest expiry of
a chain and the permissions that its links share. What they say of a device depends
on the active records alone, so it does not change with records outside of the causal
context, and a revocation can only take away, except where it meets another one.
-/

namespace MerkleTox.Core

open Library

namespace IdentityManager

/-! ## The two recursions as values of chains -/

/-- The records of a device that count in a causal context. -/
def activeRecords (manager : IdentityManager) (ctx : CausalContext)
    (conversationId : ConversationId) (logicalPk : LogicalIdentityPk) (nowMs : Int)
    (rank : Nat) (devicePk : PhysicalDevicePk) : List AuthRecord :=
  (manager.recordsOf conversationId devicePk).filter
    (manager.recordActive ctx conversationId devicePk logicalPk nowMs rank)

/-- The latest time up to which a chain holds. -/
def expiry (logicalPk : LogicalIdentityPk) : Delegation PhysicalDevicePk AuthRecord Int where
  isMaster devicePk := devicePk = logicalPk.toPhysical
  issuer := AuthRecord.issuerPk
  top := i64Max
  leaf := AuthRecord.expiresAt
  extend record issuerExpires := min record.expiresAt issuerExpires
  merge := max

/-- The permissions common to the links of a chain. -/
def permissions (logicalPk : LogicalIdentityPk) :
    Delegation PhysicalDevicePk AuthRecord Permissions where
  isMaster devicePk := devicePk = logicalPk.toPhysical
  issuer := AuthRecord.issuerPk
  top := .all
  leaf := AuthRecord.permissions
  extend record issuerPerms := record.permissions &&& issuerPerms
  merge := (· ||| ·)

theorem expiry_isJoin (logicalPk : LogicalIdentityPk) : IsJoin (expiry logicalPk).merge :=
  ⟨max_comm, max_assoc, max_self⟩

theorem permissions_isJoin (logicalPk : LogicalIdentityPk) :
    IsJoin (permissions logicalPk).merge :=
  ⟨BitVec.or_comm, BitVec.or_assoc, fun _ => BitVec.or_self⟩

theorem expiry_extend (record : AuthRecord) (first second : Int)
    (h : max first second = second) :
    max (min record.expiresAt first) (min record.expiresAt second) =
      min record.expiresAt second := by
  omega

theorem permissions_extend (record : AuthRecord) (first second : Permissions)
    (h : first ||| second = second) :
    (record.permissions &&& first) ||| (record.permissions &&& second) =
      record.permissions &&& second := by
  rw [← BitVec.and_or_distrib_left, h]

variable (manager : IdentityManager) (ctx : CausalContext) (conversationId : ConversationId)
variable (logicalPk : LogicalIdentityPk) (nowMs : Int) (rank : Nat)

theorem isAuthorizedRecursive_eq (depth : Nat) (devicePk : PhysicalDevicePk) :
    manager.isAuthorizedRecursive ctx conversationId logicalPk nowMs rank depth devicePk =
      (expiry logicalPk).value
        (manager.activeRecords ctx conversationId logicalPk nowMs rank) depth devicePk := by
  induction depth generalizing devicePk with
  | zero => rfl
  | succ depth ih =>
      unfold isAuthorizedRecursive Delegation.value
      simp only [foldl_combine_filter, ih, expiry, decide_eq_true_eq, Delegation.linkValue]
      rfl

theorem getPermissionsRecursive_eq (depth : Nat) (devicePk : PhysicalDevicePk) :
    manager.getPermissionsRecursive ctx conversationId logicalPk nowMs rank depth devicePk =
      (permissions logicalPk).value
        (manager.activeRecords ctx conversationId logicalPk nowMs rank) depth devicePk := by
  induction depth generalizing devicePk with
  | zero => rfl
  | succ depth ih =>
      unfold getPermissionsRecursive Delegation.value
      simp only [foldl_combine_filter, ih, permissions, decide_eq_true_eq, Delegation.linkValue]
      rfl

/-! ## Causal locality -/

/-- The hash of a record is in the causal history of a context; the zero hash is in
every history. -/
def InHistory (ctx : CausalContext) (recordHash : NodeHash) : Prop :=
  recordHash = .zero ∨ recordHash ∈ ctx.adminAncestorHashes

/-- Two managers hold the same records of a causal history. -/
structure AgreeOn (first second : IdentityManager) (ctx : CausalContext)
    (conversationId : ConversationId) : Prop where
  records : ∀ devicePk record, InHistory ctx record.authHash →
    (record ∈ first.recordsOf conversationId devicePk ↔
      record ∈ second.recordsOf conversationId devicePk)
  revocations : ∀ devicePk revocation, InHistory ctx revocation.revocationHash →
    (revocation ∈ first.revocationsOf conversationId devicePk ↔
      revocation ∈ second.revocationsOf conversationId devicePk)

/-- They agree on which revocations of the history are mutual. -/
def AgreeOnMutual (first second : IdentityManager) (ctx : CausalContext)
    (conversationId : ConversationId) : Prop :=
  ∀ devicePk, ∀ record ∈ first.recordsOf conversationId devicePk,
    ∀ revocation ∈ first.revocationsOf conversationId devicePk,
      InHistory ctx record.authHash → InHistory ctx revocation.revocationHash →
        first.isMutualRevocation conversationId revocation.revokerSeniority.hash record.authHash =
          second.isMutualRevocation conversationId revocation.revokerSeniority.hash
            record.authHash

/-- Whether a revocation of a device takes a record out of a causal context. -/
def revokes (manager : IdentityManager) (ctx : CausalContext) (conversationId : ConversationId)
    (rank : Nat) (record : AuthRecord) (revocation : RevocationRecord) : Bool :=
  (revocation.revocationHash = .zero || ctx.evaluatingNodeHash = .zero ||
    ctx.adminAncestorHashes.contains revocation.revocationHash) &&
  revocation.rank ≤ rank &&
  (if manager.isMutualRevocation conversationId revocation.revokerSeniority.hash
      record.authHash then
    revocation.revokerSeniority.le ⟨record.authRank, record.authHash⟩
  else revocation.revokerSeniority.rank ≤ record.authRank)

/-- The record is for the identity, unexpired, of no later rank and in the history. -/
def recordEligible (ctx : CausalContext) (logicalPk : LogicalIdentityPk) (nowMs : Int)
    (rank : Nat) (record : AuthRecord) : Bool :=
  record.logicalPk = logicalPk && nowMs < record.expiresAt && record.authRank ≤ rank &&
  (ctx.evaluatingNodeHash = .zero || record.authHash = .zero ||
    ctx.adminAncestorHashes.contains record.authHash)

theorem recordActive_eq (devicePk : PhysicalDevicePk) (record : AuthRecord) :
    manager.recordActive ctx conversationId devicePk logicalPk nowMs rank record =
      (recordEligible ctx logicalPk nowMs rank record &&
        !(manager.revocationsOf conversationId devicePk).any
          (manager.revokes ctx conversationId rank record)) := rfl

variable {manager ctx conversationId logicalPk nowMs rank}
variable {record : AuthRecord}

theorem recordEligible.inHistory (hnode : ctx.evaluatingNodeHash ≠ .zero)
    (h : recordEligible ctx logicalPk nowMs rank record = true) :
    InHistory ctx record.authHash := by
  simp only [recordEligible, hnode, decide_false, Bool.false_or, Bool.and_eq_true,
    Bool.or_eq_true, decide_eq_true_eq, List.contains_iff_mem] at h
  exact h.2

theorem revokes.inHistory {revocation : RevocationRecord} (hnode : ctx.evaluatingNodeHash ≠ .zero)
    (h : manager.revokes ctx conversationId rank record revocation = true) :
    InHistory ctx revocation.revocationHash := by
  simp only [revokes, hnode, decide_false, Bool.or_false, Bool.and_eq_true, Bool.or_eq_true,
    decide_eq_true_eq, List.contains_iff_mem] at h
  exact h.1.1

variable {first second : IdentityManager}

/-- What agrees on a history has the same active records there. -/
theorem AgreeOn.activeRecords (hnode : ctx.evaluatingNodeHash ≠ .zero)
    (hagree : AgreeOn first second ctx conversationId)
    (hmutual : AgreeOnMutual first second ctx conversationId) {devicePk : PhysicalDevicePk}
    (hactive : record ∈ first.activeRecords ctx conversationId logicalPk nowMs rank devicePk) :
    record ∈ second.activeRecords ctx conversationId logicalPk nowMs rank devicePk := by
  obtain ⟨hmem, hactive⟩ := List.mem_filter.mp hactive
  rw [recordActive_eq, Bool.and_eq_true, Bool.not_eq_true'] at hactive
  obtain ⟨heligible, hunrevoked⟩ := hactive
  have hrecord := recordEligible.inHistory hnode heligible
  refine List.mem_filter.mpr ⟨(hagree.records devicePk record hrecord).mp hmem, ?_⟩
  rw [recordActive_eq, heligible, Bool.true_and, Bool.not_eq_true', List.any_eq_false]
  intro revocation hrevocation hrevokes
  have hhistory := revokes.inHistory hnode hrevokes
  have hold := (hagree.revocations devicePk revocation hhistory).mpr hrevocation
  refine List.any_eq_false.mp hunrevoked revocation hold ?_
  unfold revokes at hrevokes ⊢
  rw [hmutual devicePk record hmem revocation hold hrecord hhistory]
  exact hrevokes

theorem AgreeOn.symm (hagree : AgreeOn first second ctx conversationId) :
    AgreeOn second first ctx conversationId :=
  ⟨fun devicePk record h => (hagree.records devicePk record h).symm,
    fun devicePk revocation h => (hagree.revocations devicePk revocation h).symm⟩

theorem AgreeOnMutual.symm (hagree : AgreeOn first second ctx conversationId)
    (hmutual : AgreeOnMutual first second ctx conversationId) :
    AgreeOnMutual second first ctx conversationId := by
  intro devicePk record hrecord revocation hrevocation hhistory hhistory'
  exact (hmutual devicePk record ((hagree.records _ _ hhistory).mpr hrecord) revocation
    ((hagree.revocations _ _ hhistory').mpr hrevocation) hhistory hhistory').symm

/-- In the causal context of a node, the records outside of its history do not matter to
either recursion, apart from which revocations of the history they make mutual. -/
theorem causal_locality (first second : IdentityManager) (ctx : CausalContext)
    (conversationId : ConversationId) (hnode : ctx.evaluatingNodeHash ≠ .zero)
    (hagree : AgreeOn first second ctx conversationId)
    (hmutual : AgreeOnMutual first second ctx conversationId)
    (logicalPk : LogicalIdentityPk) (nowMs : Int) (rank depth : Nat)
    (devicePk : PhysicalDevicePk) :
    first.isAuthorizedRecursive ctx conversationId logicalPk nowMs rank depth devicePk =
      second.isAuthorizedRecursive ctx conversationId logicalPk nowMs rank depth devicePk ∧
    first.getPermissionsRecursive ctx conversationId logicalPk nowMs rank depth devicePk =
      second.getPermissionsRecursive ctx conversationId logicalPk nowMs rank depth devicePk := by
  have hlinks : ∀ devicePk record,
      record ∈ first.activeRecords ctx conversationId logicalPk nowMs rank devicePk ↔
        record ∈ second.activeRecords ctx conversationId logicalPk nowMs rank devicePk :=
    fun devicePk record => ⟨hagree.activeRecords hnode hmutual,
      hagree.symm.activeRecords hnode (hmutual.symm hagree)⟩
  simp only [isAuthorizedRecursive_eq, getPermissionsRecursive_eq]
  exact ⟨Delegation.value_congr (expiry_isJoin logicalPk) expiry_extend hlinks depth devicePk,
    Delegation.value_congr (permissions_isJoin logicalPk) permissions_extend hlinks depth
      devicePk⟩

/-! ## Revocations -/

section Revoke

variable (manager : IdentityManager) (conversationId : ConversationId)
variable (revokerPk : PhysicalDevicePk) (revokerLogicalPk : LogicalIdentityPk)
variable (target : PhysicalDevicePk) (revokedRank : Nat) (revokedMs : Int)
variable (revocationHash : NodeHash)

/-- The record that a revocation adds. -/
def newRevocation : RevocationRecord :=
  ⟨revokedRank, manager.revokerSeniority conversationId revokerPk revokerLogicalPk revokedRank
    revokedMs, revocationHash⟩

theorem revocationsOf_revokeDevice (other : ConversationId) (devicePk : PhysicalDevicePk) :
    (manager.revokeDevice conversationId revokerPk revokerLogicalPk target revokedRank revokedMs
      revocationHash).revocationsOf other devicePk =
      if (other, devicePk) = (conversationId, target) then
        manager.revocationsOf other devicePk ++ [manager.newRevocation conversationId revokerPk
          revokerLogicalPk revokedRank revokedMs revocationHash]
      else manager.revocationsOf other devicePk := by
  unfold revokeDevice revocationsOf
  simp only [AssocMap.get_insert]
  split
  next heq =>
    rw [heq]
    rfl
  next => rfl

/-- Revocations are only added. -/
theorem revocationsOf_subset (other : ConversationId) (devicePk : PhysicalDevicePk) :
    manager.revocationsOf other devicePk ⊆ (manager.revokeDevice conversationId revokerPk
      revokerLogicalPk target revokedRank revokedMs revocationHash).revocationsOf other
        devicePk := by
  rw [revocationsOf_revokeDevice]
  split
  · exact List.subset_append_left _ _
  · exact List.Subset.refl _

/-- A revocation outside of a history leaves the records of the history alone. -/
theorem agreeOn_revokeDevice {ctx : CausalContext} (houtside : ¬ InHistory ctx revocationHash) :
    AgreeOn manager (manager.revokeDevice conversationId revokerPk revokerLogicalPk target
      revokedRank revokedMs revocationHash) ctx conversationId where
  records _ _ _ := Iff.rfl
  revocations devicePk revocation hhistory := by
    rw [revocationsOf_revokeDevice]
    split
    · rw [List.mem_append, List.mem_singleton]
      refine ⟨.inl, fun h => h.resolve_right ?_⟩
      rintro rfl
      exact houtside hhistory
    · exact Iff.rfl

/-- A revocation against a device restores a record in a causal context: its revoker ranks
by the record, the target had revoked the device of the record there at the same rank, and
the hash of the target's authorization is the greater one. The earlier revocation then
lapses. -/
def Restores (ctx : CausalContext) (conversationId : ConversationId) (rank : Nat)
    (target : PhysicalDevicePk) (seniority : Seniority) (devicePk : PhysicalDevicePk)
    (record : AuthRecord) : Prop :=
  record.authHash = seniority.hash ∧ record.authHash ≠ .zero ∧
    ∃ revocation ∈ manager.revocationsOf conversationId devicePk,
      manager.revokes ctx conversationId rank record revocation = true ∧
      manager.deviceOfAuthHash conversationId revocation.revokerSeniority.hash = some target ∧
      manager.isMutualRevocation conversationId revocation.revokerSeniority.hash
        record.authHash = false ∧
      revocation.revokerSeniority.rank = record.authRank ∧
      record.authHash.bytes < revocation.revokerSeniority.hash.bytes

variable {manager conversationId revokerPk revokerLogicalPk target revokedRank revokedMs}
variable {revocationHash}
variable {other : ConversationId} {revokerHash targetHash : NodeHash} {devicePk : PhysicalDevicePk}
variable {after : IdentityManager} (hafter : after = manager.revokeDevice conversationId revokerPk
  revokerLogicalPk target revokedRank revokedMs revocationHash)

include hafter

/-- A revocation becomes mutual only by one against its revoker. -/
theorem isMutualRevocation_revokeDevice
    (hnew : after.isMutualRevocation other revokerHash targetHash = true)
    (hold : manager.isMutualRevocation other revokerHash targetHash = false) :
    other = conversationId ∧ targetHash ≠ .zero ∧
      manager.deviceOfAuthHash conversationId revokerHash = some target ∧
      targetHash = (manager.revokerSeniority conversationId revokerPk revokerLogicalPk revokedRank
        revokedMs).hash := by
  subst hafter
  unfold isMutualRevocation at hnew hold
  split at hnew
  · cases hnew
  next hnonzero =>
    rw [if_neg hnonzero] at hold
    have hdevice : (manager.revokeDevice conversationId revokerPk revokerLogicalPk target
        revokedRank revokedMs revocationHash).deviceOfAuthHash other revokerHash =
          manager.deviceOfAuthHash other revokerHash := rfl
    rw [hdevice] at hnew
    cases hfound : manager.deviceOfAuthHash other revokerHash with
    | none =>
        rw [hfound] at hnew
        cases hnew
    | some devicePk =>
        simp only [hfound] at hnew hold
        rw [revocationsOf_revokeDevice] at hnew
        split at hnew
        next heq =>
          cases heq
          rw [List.any_append, hold, Bool.false_or] at hnew
          simp only [List.any_cons, List.any_nil, Bool.or_false, decide_eq_true_eq] at hnew
          simp only [Bool.or_eq_true, decide_eq_true_eq, not_or] at hnonzero
          exact ⟨rfl, hnonzero.2, hfound, hnew.symm⟩
        next =>
          rw [hold] at hnew
          cases hnew

theorem isMutualRevocation_mono
    (hmutual : manager.isMutualRevocation other revokerHash targetHash = true) :
    after.isMutualRevocation other revokerHash targetHash = true := by
  subst hafter
  unfold isMutualRevocation at hmutual ⊢
  split at hmutual
  · cases hmutual
  next hnonzero =>
    rw [if_neg hnonzero]
    split at hmutual
    next devicePk hdevice =>
      have hsame : (manager.revokeDevice conversationId revokerPk revokerLogicalPk target
          revokedRank revokedMs revocationHash).deviceOfAuthHash other revokerHash =
            some devicePk := hdevice
      rw [hsame]
      obtain ⟨revocation, hmem, hhash⟩ := List.any_eq_true.mp hmutual
      exact List.any_eq_true.mpr ⟨revocation, manager.revocationsOf_subset conversationId
        revokerPk revokerLogicalPk target revokedRank revokedMs revocationHash other devicePk hmem,
        hhash⟩
    next => cases hmutual

/-- A revocation of a device without records makes nothing mutual. -/
theorem agreeOnMutual_revokeDevice {ctx : CausalContext}
    (hunknown : manager.hasAuthorizationRecord conversationId target = false) :
    AgreeOnMutual manager after ctx conversationId := by
  intro devicePk record _ revocation _ _ _
  cases hmutual : manager.isMutualRevocation conversationId revocation.revokerSeniority.hash
      record.authHash with
  | true => exact (isMutualRevocation_mono hafter hmutual).symm
  | false =>
      rw [eq_comm, ← Bool.not_eq_true]
      intro hbecame
      obtain ⟨-, -, hdevice, -⟩ := isMutualRevocation_revokeDevice hafter hbecame hmutual
      obtain ⟨entry, hfind, rfl⟩ := Option.map_eq_some_iff.mp hdevice
      have hconversation : entry.1.1 = conversationId := by
        have htest := List.find?_some hfind
        simp only [Bool.and_eq_true, decide_eq_true_eq] at htest
        exact htest.1
      have hcontains : manager.hasAuthorizationRecord conversationId entry.1.2 = true := by
        rw [hasAuthorizationRecord, AssocMap.contains_iff_mem_keys, ← hconversation]
        exact List.mem_map_of_mem (List.mem_of_find?_eq_some hfind)
      rw [hcontains] at hunknown
      cases hunknown

variable {ctx : CausalContext} {logicalPk : LogicalIdentityPk} {nowMs : Int} {rank : Nat}

/-- A record that is active after a revocation was active before, unless the revocation
restores it. -/
theorem activeRecords_revokeDevice {record : AuthRecord}
    (hrestores : other = conversationId → ¬ manager.Restores ctx conversationId rank target
      (manager.revokerSeniority conversationId revokerPk revokerLogicalPk revokedRank revokedMs)
      devicePk record)
    (hrecord : record ∈ after.activeRecords ctx other logicalPk nowMs rank devicePk) :
    record ∈ manager.activeRecords ctx other logicalPk nowMs rank devicePk := by
  obtain ⟨hmem, hactive⟩ := List.mem_filter.mp hrecord
  have hold : record ∈ manager.recordsOf other devicePk := by
    rw [hafter] at hmem
    exact hmem
  refine List.mem_filter.mpr ⟨hold, ?_⟩
  rw [recordActive_eq, Bool.and_eq_true, Bool.not_eq_true'] at hactive ⊢
  refine ⟨hactive.1, List.any_eq_false.mpr fun revocation hrevocation hrevokes => ?_⟩
  have hkept : revocation ∈ after.revocationsOf other devicePk := by
    rw [hafter]
    exact manager.revocationsOf_subset conversationId revokerPk revokerLogicalPk target revokedRank
      revokedMs revocationHash other devicePk hrevocation
  refine List.any_eq_false.mp hactive.2 revocation hkept ?_
  have hbefore := hrevokes
  unfold revokes at hrevokes ⊢
  simp only [Bool.and_eq_true] at hrevokes ⊢
  refine ⟨hrevokes.1, ?_⟩
  have hsenior := hrevokes.2
  split at hsenior
  next hmutual =>
    rw [if_pos (isMutualRevocation_mono hafter hmutual)]
    exact hsenior
  next hmutual =>
    rw [Bool.not_eq_true] at hmutual
    split
    next hbecame =>
      obtain ⟨rfl, hnonzero, hdevice, hhash⟩ :=
        isMutualRevocation_revokeDevice hafter hbecame hmutual
      -- The ranks decided before; now the hashes decide between equal ranks.
      rw [decide_eq_true_eq] at hsenior
      by_contra hjunior
      simp only [Seniority.le, Seniority.lt, Bool.not_eq_true', Bool.not_eq_false,
        Bool.or_eq_true, Bool.and_eq_true, decide_eq_true_eq] at hjunior
      rcases hjunior with hlt | ⟨heq, hlt⟩
      · omega
      · exact hrestores rfl ⟨hhash, hnonzero, revocation, hrevocation, hbefore, hdevice, hmutual,
          heq.symm, hlt⟩
    next => exact hsenior

omit hafter

/-- Without a chain a query says no, whatever the cache holds. -/
theorem isAuthorizedRecursive_of_unauthorized
    (h : (manager.isAuthorized ctx conversationId devicePk logicalPk nowMs rank).1 = false) :
    manager.isAuthorizedRecursive ctx conversationId logicalPk nowMs rank (maxAuthDepth + 1)
      devicePk = none := by
  unfold isAuthorized at h
  split at h
  · cases h
  · simp only at h
    split at h
    · cases h
    · split at h
      · cases h
      next hnone => exact hnone

/-- With an empty cache a query without a chain says no. -/
theorem unauthorized_of_isAuthorizedRecursive (hcache : manager.pathCache.entries = [])
    (h : manager.isAuthorizedRecursive ctx conversationId logicalPk nowMs rank (maxAuthDepth + 1)
      devicePk = none) :
    (manager.isAuthorized ctx conversationId devicePk logicalPk nowMs rank).1 = false := by
  have hmaster : devicePk ≠ logicalPk.toPhysical := by
    rintro rfl
    simp [isAuthorizedRecursive] at h
  have hpeek : ∀ key, manager.pathCache.peek key = none := by
    intro key
    simp [LruCache.peek, hcache]
  simp [isAuthorized, hmaster, hpeek, h]

end Revoke

/-- The records that the answers about a device are made of. -/
def UsesRecord (manager : IdentityManager) (ctx : CausalContext) (conversationId : ConversationId)
    (logicalPk : LogicalIdentityPk) (nowMs : Int) (rank : Nat) :
    PhysicalDevicePk → PhysicalDevicePk → AuthRecord → Prop :=
  Delegation.Uses (fun devicePk => devicePk = logicalPk.toPhysical) AuthRecord.issuerPk
    (manager.activeRecords ctx conversationId logicalPk nowMs rank)

/-- A further revocation does not authorize a device nor add to its permissions, unless a
record that its authorization is made of was restored in answer to an earlier
revocation. -/
theorem revokeDevice_antitone (manager : IdentityManager) (conversationId : ConversationId)
    (revokerPk : PhysicalDevicePk) (revokerLogicalPk : LogicalIdentityPk)
    (target : PhysicalDevicePk) (revokedRank : Nat) (revokedMs : Int) (revocationHash : NodeHash)
    (ctx : CausalContext) (other : ConversationId) (devicePk : PhysicalDevicePk)
    (logicalPk : LogicalIdentityPk) (nowMs : Int) (rank : Nat)
    (hrestores : other = conversationId → ∀ holder record,
      (manager.revokeDevice conversationId revokerPk revokerLogicalPk target revokedRank revokedMs
        revocationHash).UsesRecord ctx other logicalPk nowMs rank devicePk holder record →
      ¬ manager.Restores ctx conversationId rank target (manager.revokerSeniority conversationId
        revokerPk revokerLogicalPk revokedRank revokedMs) holder record) :
    ((manager.isAuthorized ctx other devicePk logicalPk nowMs rank).1 = false →
      ((manager.revokeDevice conversationId revokerPk revokerLogicalPk target revokedRank revokedMs
        revocationHash).isAuthorized ctx other devicePk logicalPk nowMs rank).1 = false) ∧
    Below (· ||| ·)
      ((manager.revokeDevice conversationId revokerPk revokerLogicalPk target revokedRank revokedMs
        revocationHash).getPermissions ctx other devicePk logicalPk nowMs rank)
      (manager.getPermissions ctx other devicePk logicalPk nowMs rank) := by
  have hlinks : ∀ holder record, (manager.revokeDevice conversationId revokerPk revokerLogicalPk
      target revokedRank revokedMs revocationHash).UsesRecord ctx other logicalPk nowMs rank
        devicePk holder record →
      record ∈ manager.activeRecords ctx other logicalPk nowMs rank holder :=
    fun holder record hused => activeRecords_revokeDevice rfl
      (fun hother => hrestores hother holder record hused) (Delegation.Uses.mem hused)
  refine ⟨fun hunauthorized => ?_, ?_⟩
  · have hnone := isAuthorizedRecursive_of_unauthorized hunauthorized
    refine unauthorized_of_isAuthorizedRecursive rfl ?_
    rw [isAuthorizedRecursive_eq] at hnone ⊢
    have hbelow := Delegation.value_mono (expiry_isJoin logicalPk) expiry_extend
      (maxAuthDepth + 1) devicePk hlinks
    rw [hnone] at hbelow
    rw [Option.eq_none_iff_forall_ne_some]
    intro expires hsome
    obtain ⟨_, habsurd, _⟩ := hbelow expires hsome
    cases habsurd
  · unfold getPermissions
    rw [getPermissionsRecursive_eq, getPermissionsRecursive_eq]
    exact Delegation.value_mono (permissions_isJoin logicalPk) permissions_extend
      (maxAuthDepth + 1) devicePk hlinks

end IdentityManager

namespace Delegation

/-! ## Two admins who revoke each other -/

open Reference IdentityManager

/-- The founder authorizes the devices 10 and 11 at the same rank, and 10 revokes 11. -/
def rivals : IdentityManager :=
  runFrom step .new
    [.authorizeDevice .global room ⟨1⟩ (certificate ⟨10⟩) 1000 5 ⟨101⟩,
      .authorizeDevice .global room ⟨1⟩ (certificate ⟨11⟩) 1000 5 ⟨100⟩,
      .revokeDevice room ⟨10⟩ ⟨1⟩ ⟨11⟩ 6 1000 ⟨102⟩]

/-- Then 11 revokes 10, which 10's own revocation does not outrank. -/
def answered : IdentityManager := rivals.revokeDevice room ⟨11⟩ ⟨1⟩ ⟨10⟩ 6 1000 ⟨103⟩

/-- A node that has seen the first revocation only. -/
def ctx : CausalContext := ⟨⟨200⟩, [⟨100⟩, ⟨101⟩, ⟨102⟩]⟩

/-- The two managers agree on the history of the node, but not on the device 11; nor do
they agree on the device 10 in the global context. -/
theorem unrelated_revocation_matters :
    (AgreeOn rivals answered ctx room ∧
      rivals.isAuthorizedRecursive ctx room ⟨1⟩ 1000 10 17 ⟨11⟩ ≠
        answered.isAuthorizedRecursive ctx room ⟨1⟩ 1000 10 17 ⟨11⟩) ∧
    (AgreeOn rivals answered .global room ∧
      rivals.isAuthorizedRecursive .global room ⟨1⟩ 1000 10 17 ⟨10⟩ ≠
        answered.isAuthorizedRecursive .global room ⟨1⟩ 1000 10 17 ⟨10⟩) :=
  ⟨⟨agreeOn_revokeDevice _ _ _ _ _ _ _ _ (by simp [InHistory, ctx, NodeHash.zero]),
      by decide +kernel⟩,
    ⟨agreeOn_revokeDevice _ _ _ _ _ _ _ _ (by simp [InHistory, CausalContext.global,
      NodeHash.zero]), by decide +kernel⟩⟩

/-- A revocation of a device without records, outside of the history, changes nothing. -/
theorem causal_locality_unknown_device :
    ctx.evaluatingNodeHash ≠ .zero ∧
      (rivals.isAuthorizedRecursive ctx room ⟨1⟩ 1000 10 17 ⟨10⟩ =
        (rivals.revokeDevice room ⟨1⟩ ⟨1⟩ ⟨12⟩ 6 1000 ⟨103⟩).isAuthorizedRecursive ctx room ⟨1⟩
          1000 10 17 ⟨10⟩ ∧
      rivals.getPermissionsRecursive ctx room ⟨1⟩ 1000 10 17 ⟨10⟩ =
        (rivals.revokeDevice room ⟨1⟩ ⟨1⟩ ⟨12⟩ 6 1000 ⟨103⟩).getPermissionsRecursive ctx room ⟨1⟩
          1000 10 17 ⟨10⟩) ∧
      rivals.isAuthorizedRecursive ctx room ⟨1⟩ 1000 10 17 ⟨10⟩ = some 100000 := by
  have hnode : ctx.evaluatingNodeHash ≠ .zero := by decide
  refine ⟨hnode, causal_locality _ _ ctx room hnode ?_ ?_ ⟨1⟩ 1000 10 17 ⟨10⟩,
    by decide +kernel⟩
  · exact agreeOn_revokeDevice _ _ _ _ _ _ _ _ (by simp [InHistory, ctx, NodeHash.zero])
  · exact agreeOnMutual_revokeDevice rfl (by decide +kernel)

/-- A node that has seen the answer as well. -/
def answeredCtx : CausalContext := ⟨⟨200⟩, [⟨100⟩, ⟨101⟩, ⟨102⟩, ⟨103⟩]⟩

/-- The device 11 is revoked before the answer and authorized after it. -/
def RestoresIn (seen : CausalContext) : Prop :=
  (rivals.isAuthorized seen room ⟨11⟩ ⟨1⟩ 1000 10).1 = false ∧
    (answered.isAuthorized seen room ⟨11⟩ ⟨1⟩ 1000 10).1 = true ∧
    rivals.getPermissions seen room ⟨11⟩ ⟨1⟩ 1000 10 = none ∧
    answered.getPermissions seen room ⟨11⟩ ⟨1⟩ 1000 10 = some .all

/-- In the history of a node that has seen the answer, and in the global context. -/
theorem answer_restores_revoker : RestoresIn answeredCtx ∧ RestoresIn .global := by
  unfold RestoresIn
  decide +kernel

/-- A certificate for the device 12 with some permissions, signed with a key. -/
def helperCertificate (key : Bytes32) (perms : Permissions) : DelegationCertificate :=
  let unsigned := { certificate ⟨12⟩ with permissions := perms }
  { unsigned with signature := signature key (Primitives.delegationSignData unsigned) }

/-- The device 12 hangs on the founder, for messages, and on the device 10. -/
def helped : IdentityManager :=
  runFrom step rivals
    [.authorizeDevice .global room ⟨1⟩ (helperCertificate 1 .message) 1000 5 ⟨98⟩,
      .authorizeDevice .global room ⟨1⟩ (helperCertificate 10 .all) 1000 5 ⟨99⟩]

/-- The answer takes from the device 12 what the device 10 gave it: none of its chains goes
through the record that is restored. -/
theorem revokeDevice_antitone_helped :
    let seen : CausalContext := ⟨⟨200⟩, [⟨98⟩, ⟨99⟩, ⟨100⟩, ⟨101⟩, ⟨102⟩, ⟨103⟩]⟩
    let after := helped.revokeDevice room ⟨11⟩ ⟨1⟩ ⟨10⟩ 6 1000 ⟨103⟩
    (helped.getPermissions seen room ⟨12⟩ ⟨1⟩ 1000 10 = some .all ∧
      after.getPermissions seen room ⟨12⟩ ⟨1⟩ 1000 10 = some .message) ∧
    ((helped.isAuthorized seen room ⟨12⟩ ⟨1⟩ 1000 10).1 = false →
      (after.isAuthorized seen room ⟨12⟩ ⟨1⟩ 1000 10).1 = false) ∧
    Below (· ||| ·) (after.getPermissions seen room ⟨12⟩ ⟨1⟩ 1000 10)
      (helped.getPermissions seen room ⟨12⟩ ⟨1⟩ 1000 10) := by
  intro seen after
  have hrecords : ∀ device ∈ [PhysicalDevicePk.mk 12, ⟨10⟩, ⟨1⟩],
      ∀ record ∈ after.activeRecords seen room ⟨1⟩ 1000 10 device,
        record.authHash ≠ ⟨100⟩ ∧ record.issuerPk ∈ [PhysicalDevicePk.mk 12, ⟨10⟩, ⟨1⟩] := by
    decide +kernel
  have hchains : ∀ device holder record,
      after.UsesRecord seen room ⟨1⟩ 1000 10 device holder record →
      device ∈ [PhysicalDevicePk.mk 12, ⟨10⟩, ⟨1⟩] → record.authHash ≠ ⟨100⟩ := by
    intro device holder record hused hdevice
    induction hused with
    | own _ hmem => exact (hrecords _ hdevice _ hmem).1
    | issuer _ hmem _ ih => exact ih (hrecords _ hdevice _ hmem).2
  refine ⟨by decide +kernel, revokeDevice_antitone helped room ⟨11⟩ ⟨1⟩ ⟨10⟩ 6 1000 ⟨103⟩ seen room
    ⟨12⟩ ⟨1⟩ 1000 10 ?_⟩
  intro _ holder record hused hrestores
  have hrank : (helped.revokerSeniority room ⟨11⟩ ⟨1⟩ 6 1000).hash = ⟨100⟩ := by decide +kernel
  exact hchains ⟨12⟩ holder record hused List.mem_cons_self (hrestores.1.trans hrank)

end Delegation

end MerkleTox.Core
