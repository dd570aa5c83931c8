import MerkleTox.Core.Admission
import MerkleTox.Core.Reference

/-! # Limits on the number of devices

A delegated authorization is refused once the identity or the conversation has as
many devices as it may have. An authorization that the identity itself has signed is
not, so the limits hold exactly as long as no such authorization exceeds them.
-/

namespace MerkleTox.Core

open Library Proto

namespace IdentityManager

/-- The number of devices with a record in a conversation. -/
def deviceCount (manager : IdentityManager) (conversationId : ConversationId) : Nat :=
  (manager.authorizedDevices.entries.filter fun entry => entry.1.1 = conversationId).length

/-- No identity and no conversation has more devices than it may have. -/
structure WithinLimits (manager : IdentityManager) : Prop where
  identity : ∀ conversationId logicalPk,
    (manager.devicesOf conversationId logicalPk).length ≤ maxDevicesPerIdentity
  group : ∀ conversationId, manager.deviceCount conversationId ≤ maxGroupDevices

/-! ## Counting devices -/

theorem mem_devicesOf {manager : IdentityManager} {conversationId : ConversationId}
    {logicalPk : LogicalIdentityPk} {devicePk : PhysicalDevicePk} :
    devicePk ∈ manager.devicesOf conversationId logicalPk ↔
      (manager.recordsOf conversationId devicePk).any (fun record => record.logicalPk = logicalPk) =
        true := by
  unfold devicesOf recordsOf
  simp only [List.mem_map, List.mem_filter, Bool.and_eq_true, decide_eq_true_eq]
  constructor
  · rintro ⟨⟨⟨conversation, device⟩, records⟩, ⟨hmem, rfl, hany⟩, rfl⟩
    rw [AssocMap.get_eq_some_iff.mpr hmem]
    exact hany
  · intro hany
    cases hget : manager.authorizedDevices.get (conversationId, devicePk) with
    | none => simp [hget] at hany
    | some records =>
        rw [hget] at hany
        exact ⟨((conversationId, devicePk), records), ⟨AssocMap.get_eq_some_iff.mp hget, rfl, hany⟩,
          rfl⟩

/-- An entry counts for an identity if one of its records is for that identity. -/
def identityWeight (conversationId : ConversationId) (logicalPk : LogicalIdentityPk)
    (key : DeviceKey) (records : List AuthRecord) : Nat :=
  if key.1 = conversationId && records.any fun record => record.logicalPk = logicalPk then 1
  else 0

theorem length_devicesOf (manager : IdentityManager) (conversationId : ConversationId)
    (logicalPk : LogicalIdentityPk) :
    (manager.devicesOf conversationId logicalPk).length =
      manager.authorizedDevices.total (identityWeight conversationId logicalPk) := by
  rw [devicesOf, List.length_map]
  exact manager.authorizedDevices.length_filter_entries _

theorem deviceCount_eq (manager : IdentityManager) (conversationId : ConversationId) :
    manager.deviceCount conversationId =
      manager.authorizedDevices.total fun key _ => if key.1 = conversationId then 1 else 0 := by
  rw [deviceCount, AssocMap.length_filter_entries]
  simp only [decide_eq_true_eq]

variable (manager : IdentityManager) (conversationId : ConversationId)
variable (devicePk : PhysicalDevicePk) (record : AuthRecord)

/-- A new record counts for its identity. -/
theorem any_pushed (records : List AuthRecord) (logicalPk : LogicalIdentityPk) :
    (if records.contains record then records else records ++ [record]).any
        (fun record => record.logicalPk = logicalPk) =
      (records.any (fun record => record.logicalPk = logicalPk) ||
        decide (record.logicalPk = logicalPk)) := by
  split
  next hcontains =>
    by_cases heq : record.logicalPk = logicalPk
    · have hany : records.any (fun record => record.logicalPk = logicalPk) = true :=
        List.any_eq_true.mpr ⟨record, List.contains_iff_mem.mp hcontains, by simpa using heq⟩
      simp [hany]
    · simp [heq]
  next => simp

/-- A record adds its device to the devices of its identity, if it was not there. -/
theorem pushRecord_devicesOf (other : ConversationId) (logicalPk : LogicalIdentityPk) :
    ((manager.pushRecord conversationId devicePk record).devicesOf other logicalPk).length =
      (manager.devicesOf other logicalPk).length +
        if other = conversationId ∧ logicalPk = record.logicalPk ∧
          devicePk ∉ manager.devicesOf other logicalPk then 1 else 0 := by
  have hold : manager.authorizedDevices.weightAt (identityWeight other logicalPk)
      (conversationId, devicePk) = identityWeight other logicalPk (conversationId, devicePk)
        (manager.recordsOf conversationId devicePk) := by
    unfold AssocMap.weightAt recordsOf
    cases manager.authorizedDevices.get (conversationId, devicePk) with
    | none => simp [identityWeight]
    | some records => rfl
  have hcounts := manager.authorizedDevices.total_insert (identityWeight other logicalPk)
    (conversationId, devicePk)
    (if (manager.recordsOf conversationId devicePk).contains record then
        manager.recordsOf conversationId devicePk
      else manager.recordsOf conversationId devicePk ++ [record])
  rw [hold] at hcounts
  have hafter : ((manager.pushRecord conversationId devicePk record).devicesOf other
      logicalPk).length = (manager.authorizedDevices.insert (conversationId, devicePk) _).total
        (identityWeight other logicalPk) := length_devicesOf _ other logicalPk
  rw [length_devicesOf manager, hafter]
  simp only [identityWeight, any_pushed] at hcounts ⊢
  by_cases hother : other = conversationId
  · subst hother
    by_cases hin : devicePk ∈ manager.devicesOf other logicalPk
    · rw [mem_devicesOf.mp hin] at hcounts
      simpa [hin] using hcounts
    · have hnone : (manager.recordsOf other devicePk).any
          (fun record => record.logicalPk = logicalPk) = false := by
        rw [← Bool.not_eq_true]
        exact fun h => hin (mem_devicesOf.mpr h)
      rw [hnone] at hcounts
      simpa [hin, eq_comm] using hcounts
  · simpa [hother, Ne.symm hother] using hcounts

/-- A record adds its device to those of the conversation, if it was not there. -/
theorem pushRecord_deviceCount (other : ConversationId) :
    (manager.pushRecord conversationId devicePk record).deviceCount other =
      manager.deviceCount other +
        if other = conversationId ∧ manager.hasAuthorizationRecord conversationId devicePk = false
        then 1 else 0 := by
  have hcounts := manager.authorizedDevices.total_insert
    (fun key _ => if key.1 = other then 1 else 0) (conversationId, devicePk)
    (if (manager.recordsOf conversationId devicePk).contains record then
        manager.recordsOf conversationId devicePk
      else manager.recordsOf conversationId devicePk ++ [record])
  have hafter : (manager.pushRecord conversationId devicePk record).deviceCount other =
      (manager.authorizedDevices.insert (conversationId, devicePk) _).total
        fun key _ => if key.1 = other then 1 else 0 := deviceCount_eq _ other
  rw [deviceCount_eq manager, hafter]
  unfold hasAuthorizationRecord
  rw [AssocMap.contains_eq]
  unfold AssocMap.weightAt at hcounts
  by_cases hother : other = conversationId
  · subst hother
    cases hget : manager.authorizedDevices.get (other, devicePk) with
    | none | some records => simpa [hget] using hcounts
  · have hne : conversationId ≠ other := Ne.symm hother
    cases hget : manager.authorizedDevices.get (conversationId, devicePk) with
    | none | some records => simpa [hget, hother, hne] using hcounts

/-! ## Authorizations -/

section Authorize

variable [Primitives]

/-- The identity has signed the certificate itself, and it is for this conversation. -/
def signedByIdentity (conversationId : ConversationId) (logicalPk : LogicalIdentityPk)
    (cert : DelegationCertificate) (nowMs : Int) : Bool :=
  cert.conversationId = conversationId && (verifyDelegation cert logicalPk.bytes nowMs).isOk

/-- Forget the paths and remember the attempt. -/
def beginAuthorize (manager : IdentityManager) (ctx : CausalContext)
    (conversationId : ConversationId) (logicalPk : LogicalIdentityPk)
    (cert : DelegationCertificate) (nowMs : Int) (rank : Nat) (authHash : NodeHash) :
    IdentityManager :=
  { manager with
      pathCache := manager.pathCache.clear
      changes := .authorize ctx conversationId logicalPk cert nowMs rank authHash ::
        manager.changes }

/-- What an authorization does: an identity's own certificate is recorded, another one is
recorded within the limits or refused. -/
theorem authorizeDevice_cases (ctx : CausalContext) (logicalPk : LogicalIdentityPk)
    (cert : DelegationCertificate) (nowMs : Int) (rank : Nat) (authHash : NodeHash) :
    let begun := manager.beginAuthorize ctx conversationId logicalPk cert nowMs rank authHash
    let result := manager.authorizeDevice ctx conversationId logicalPk cert nowMs rank authHash
    (signedByIdentity conversationId logicalPk cert nowMs = true ∧
      ∃ record : AuthRecord, record.logicalPk = logicalPk ∧
        result = (.ok (), begun.pushRecord conversationId cert.devicePk record)) ∨
    (signedByIdentity conversationId logicalPk cert nowMs = false ∧
      ((∃ error, result = (.error error, begun)) ∨
        (manager.devicesOf conversationId logicalPk).length < maxDevicesPerIdentity ∧
        manager.deviceCount conversationId < maxGroupDevices ∧
        ∃ record : AuthRecord, record.logicalPk = logicalPk ∧
          result = (.ok (), begun.pushRecord conversationId cert.devicePk record))) := by
  simp only [authorizeDevice, signedByIdentity, Bool.and_eq_true, Bool.and_eq_false_iff,
    decide_eq_true_eq, decide_eq_false_iff_not]
  split
  next hconversation =>
    exact .inr ⟨.inl hconversation, .inl ⟨_, rfl⟩⟩
  next hconversation =>
    split
    next hsigned =>
      exact .inl ⟨⟨not_not.mp hconversation, hsigned⟩, _, rfl, rfl⟩
    next hsigned =>
      refine .inr ⟨.inr (by simpa using hsigned), ?_⟩
      split
      · exact .inl ⟨_, rfl⟩
      · split
        · exact .inl ⟨_, rfl⟩
        · split
          · exact .inl ⟨_, rfl⟩
          · split
            · exact .inl ⟨_, rfl⟩
            next hidentity =>
              split
              · exact .inl ⟨_, rfl⟩
              next hgroup =>
                exact .inr ⟨Nat.lt_of_not_le hidentity, Nat.lt_of_not_le hgroup, _, rfl, rfl⟩

/-- An authorization that the identity has signed exceeds no limit: its device is
counted already or there is room for it. -/
def Fits (manager : IdentityManager) : IdentityCommand → Prop
  | .authorizeDevice _ conversationId logicalPk cert nowMs _ _ =>
      signedByIdentity conversationId logicalPk cert nowMs = true →
        (cert.devicePk ∈ manager.devicesOf conversationId logicalPk ∨
          (manager.devicesOf conversationId logicalPk).length < maxDevicesPerIdentity) ∧
        (manager.hasAuthorizationRecord conversationId cert.devicePk = true ∨
          manager.deviceCount conversationId < maxGroupDevices)
  | _ => True

instance (manager : IdentityManager) (command : IdentityCommand) :
    Decidable (manager.Fits command) := by
  unfold Fits
  cases command <;> infer_instance

end Authorize

/-- The limits concern the authorized devices only. -/
theorem WithinLimits.of_same {manager manager' : IdentityManager}
    (hlimits : manager.WithinLimits)
    (hsame : manager'.authorizedDevices = manager.authorizedDevices) : manager'.WithinLimits where
  identity conversationId logicalPk := by
    rw [devicesOf, hsame]
    exact hlimits.identity conversationId logicalPk
  group conversationId := by
    rw [deviceCount, hsame]
    exact hlimits.group conversationId

/-- A record keeps the limits if and only if its device fits. -/
theorem pushRecord_withinLimits (hlimits : manager.WithinLimits) :
    (manager.pushRecord conversationId devicePk record).WithinLimits ↔
      (devicePk ∈ manager.devicesOf conversationId record.logicalPk ∨
        (manager.devicesOf conversationId record.logicalPk).length < maxDevicesPerIdentity) ∧
      (manager.hasAuthorizationRecord conversationId devicePk = true ∨
        manager.deviceCount conversationId < maxGroupDevices) := by
  constructor
  · intro h
    have hidentity := h.identity conversationId record.logicalPk
    have hgroup := h.group conversationId
    rw [pushRecord_devicesOf] at hidentity
    rw [pushRecord_deviceCount] at hgroup
    constructor
    · by_cases hin : devicePk ∈ manager.devicesOf conversationId record.logicalPk
      · exact .inl hin
      · rw [if_pos ⟨rfl, rfl, hin⟩] at hidentity
        exact .inr hidentity
    · by_cases hin : manager.hasAuthorizationRecord conversationId devicePk = true
      · exact .inl hin
      · rw [if_pos ⟨rfl, by simpa using hin⟩] at hgroup
        exact .inr hgroup
  · rintro ⟨hidentity, hgroup⟩
    constructor
    · intro other logicalPk
      have hbefore := hlimits.identity other logicalPk
      rw [pushRecord_devicesOf]
      split
      next hnew =>
        obtain ⟨rfl, rfl, hnot⟩ := hnew
        exact hidentity.resolve_left hnot
      next => exact hbefore
    · intro other
      have hbefore := hlimits.group other
      rw [pushRecord_deviceCount]
      split
      next hnew =>
        obtain ⟨rfl, hnot⟩ := hnew
        exact hgroup.resolve_left (by simp [hnot])
      next => exact hbefore

theorem removeMember_devices (revokerPk : PhysicalDevicePk)
    (revokerLogicalPk logicalPk : LogicalIdentityPk) (rank : Nat) (nowMs : Int)
    (revocationHash : NodeHash) :
    (manager.removeMember conversationId revokerPk revokerLogicalPk logicalPk rank nowMs
      revocationHash).authorizedDevices = manager.authorizedDevices := by
  unfold removeMember
  simp only
  generalize (manager.dropMember conversationId logicalPk).devicesOf conversationId logicalPk =
    devices
  have hdropped : (manager.dropMember conversationId logicalPk).authorizedDevices =
      manager.authorizedDevices := rfl
  generalize manager.dropMember conversationId logicalPk = dropped at hdropped ⊢
  induction devices generalizing dropped with
  | nil => exact hdropped
  | cons device rest ih => exact ih _ hdropped

/-- One call keeps the limits if and only if it fits. -/
theorem step_withinLimits [Primitives] (command : IdentityCommand)
    (hlimits : manager.WithinLimits) :
    (manager.step command).WithinLimits ↔ manager.Fits command := by
  cases command with
  | addMember conversationId logicalPk role joinedAt =>
      exact iff_of_true (hlimits.of_same rfl) trivial
  | removeMember conversationId revokerPk revokerLogicalPk logicalPk rank nowMs revocationHash =>
      exact iff_of_true (hlimits.of_same (manager.removeMember_devices ..)) trivial
  | revokeDevice conversationId revokerPk revokerLogicalPk target rank nowMs revocationHash =>
      exact iff_of_true (hlimits.of_same rfl) trivial
  | isAuthorized ctx conversationId devicePk logicalPk nowMs rank =>
      obtain ⟨paths, heq⟩ := manager.isAuthorized_frame ctx conversationId devicePk logicalPk
        nowMs rank
      refine iff_of_true ?_ trivial
      simp only [step, heq]
      exact hlimits.of_same rfl
  | authorizeDevice ctx conversationId logicalPk cert nowMs rank authHash =>
      have hbegun : (manager.beginAuthorize ctx conversationId logicalPk cert nowMs rank
          authHash).WithinLimits := hlimits.of_same rfl
      have hpush := fun record => pushRecord_withinLimits _ conversationId cert.devicePk record
        hbegun
      simp only [step, Fits]
      rcases manager.authorizeDevice_cases conversationId ctx logicalPk cert nowMs rank authHash with
        ⟨hsigned, record, rfl, heq⟩ | ⟨hsigned, ⟨error, heq⟩ |
          ⟨hidentity, hgroup, record, rfl, heq⟩⟩
      · rw [heq, hpush record]
        exact ⟨fun h _ => h, fun h => h hsigned⟩
      · rw [heq]
        exact iff_of_true hbegun fun h => absurd h (by simp [hsigned])
      · rw [heq]
        refine iff_of_true ((hpush record).mpr ⟨.inr hidentity, .inr hgroup⟩) fun h => ?_
        rw [hsigned] at h
        cases h

end IdentityManager

/-- In every run of an identity manager, all states reached are within the limits if and
only if every authorization that an identity has signed fits. -/
theorem run_withinLimits [Primitives] (commands : List IdentityCommand) :
    (∀ earlier, earlier <+: commands →
      (runFrom IdentityManager.step .new earlier).WithinLimits) ↔
    RunMeets IdentityManager.step IdentityManager.Fits .new commands := by
  have hstart : IdentityManager.new.WithinLimits :=
    ⟨fun _ _ => Nat.zero_le _, fun _ => Nat.zero_le _⟩
  generalize IdentityManager.new = manager at hstart ⊢
  induction commands generalizing manager with
  | nil =>
      refine iff_of_true (fun earlier hextends => ?_) trivial
      rw [List.prefix_nil.mp hextends]
      exact hstart
  | cons command rest ih =>
      constructor
      · intro hreached
        have hfirst : (manager.step command).WithinLimits :=
          hreached [command] (List.prefix_append _ _)
        refine ⟨(manager.step_withinLimits command hstart).mp hfirst, (ih _ hfirst).mp ?_⟩
        exact fun earlier hextends => hreached (command :: earlier)
          (List.cons_prefix_cons.mpr ⟨rfl, hextends⟩)
      · rintro ⟨hfits, hrest⟩ earlier hextends
        have hfirst := (manager.step_withinLimits command hstart).mpr hfits
        cases earlier with
        | nil => exact hstart
        | cons other earlier =>
            obtain ⟨rfl, hearlier⟩ := List.cons_prefix_cons.mp hextends
            exact (ih _ hfirst).mpr hrest earlier hearlier

namespace DeviceLimits

/-! ## An identity that signs too many certificates -/

open Reference

/-- The founder certifies as many devices as it likes. -/
def authorizations (count : Nat) : List IdentityCommand :=
  (List.range count).map fun index =>
    .authorizeDevice .global room ⟨1⟩ (certificate ⟨BitVec.ofNat 256 (100 + index)⟩) 1000 index
      ⟨BitVec.ofNat 256 (1 + index)⟩

/-- All of 33 certificates are recorded. -/
theorem identity_exceeds_limit :
    ¬ (runFrom IdentityManager.step .new (authorizations 33)).WithinLimits := by
  intro hlimits
  have hcount : ((runFrom IdentityManager.step .new (authorizations 33)).devicesOf room
      ⟨1⟩).length = 33 := by decide +kernel
  have hbound := hlimits.identity room ⟨1⟩
  rw [hcount] at hbound
  exact absurd hbound (by decide)

end DeviceLimits

end MerkleTox.Core
