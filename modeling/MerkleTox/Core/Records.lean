import MerkleTox.Core.DeviceLimits
import MerkleTox.Core.Membership
import MerkleTox.Core.Writes

/-! # Where the records of devices come from

Over any run of the engine each record of an authorized device rests on a certificate that its
issuer signed.
-/

namespace MerkleTox.Core

open Library Proto

variable [Primitives] {manager manager' : IdentityManager} {conversationId : ConversationId}
variable {devicePk : PhysicalDevicePk} {record : AuthRecord}

namespace IdentityManager

/-- The key of the identity itself, or a device that has a record with ADMIN for it. -/
def MayIssue (manager : IdentityManager) (conversationId : ConversationId)
    (logicalPk : LogicalIdentityPk) (issuerPk : PhysicalDevicePk) : Prop :=
  issuerPk = logicalPk.toPhysical ∨ ∃ issuing ∈ manager.recordsOf conversationId issuerPk,
    issuing.logicalPk = logicalPk ∧ issuing.permissions.includes .admin = true

/-- An authorization was asked for with a certificate for the device that the issuer of the
record had signed and that had not expired. -/
def Certifies (manager : IdentityManager) (conversationId : ConversationId)
    (devicePk : PhysicalDevicePk) (record : AuthRecord) : Prop :=
  ∃ ctx cert nowMs,
    .authorize ctx conversationId record.logicalPk cert nowMs record.authRank record.authHash ∈
      manager.changes ∧
    manager.MayIssue conversationId record.logicalPk record.issuerPk ∧
    (verifyDelegation cert record.issuerPk.bytes nowMs).isOk = true ∧
    cert.conversationId = conversationId ∧ cert.devicePk = devicePk ∧
    cert.permissions = record.permissions ∧ cert.expiresAt = record.expiresAt

/-- Every record of the manager is certified. -/
def AllCertified (manager : IdentityManager) : Prop :=
  ∀ conversationId devicePk, ∀ record ∈ manager.recordsOf conversationId devicePk,
    manager.Certifies conversationId devicePk record

omit [Primitives] in
theorem mem_pushRecord {pushed : AuthRecord} {conversation : ConversationId}
    {other : PhysicalDevicePk}
    (hmem : record ∈ (manager.pushRecord conversation other pushed).recordsOf conversationId
      devicePk) :
    record ∈ manager.recordsOf conversationId devicePk ∨
      (conversation, other, pushed) = (conversationId, devicePk, record) := by
  rw [recordsOf, pushRecord, AssocMap.get_insert] at hmem
  split at hmem
  next heq =>
    cases heq
    rw [Option.getD_some] at hmem
    split at hmem
    · exact .inl hmem
    · rcases List.mem_append.mp hmem with hold | hnew
      · exact .inl hold
      · exact .inr (by rw [List.mem_singleton.mp hnew])
  next => exact .inl hmem

variable (ctx : CausalContext) {logicalPk : LogicalIdentityPk} (cert : DelegationCertificate)
variable (nowMs : Int) (rank : Nat) {issuerPk : PhysicalDevicePk} {permissions : Permissions}

/-- An issuer that was found signed the certificate and has a record with ADMIN. -/
theorem issuer_of_findSome? (hfound : manager.authorizedDevices.entries.findSome?
    (manager.issuerPermissions ctx conversationId logicalPk cert nowMs rank) =
      some (issuerPk, permissions)) :
    (verifyDelegation cert issuerPk.bytes nowMs).isOk = true ∧
      manager.MayIssue conversationId logicalPk issuerPk := by
  obtain ⟨⟨⟨conversation, devicePk⟩, records⟩, hmem, hissuer⟩ :=
    List.exists_of_findSome?_eq_some hfound
  unfold issuerPermissions at hissuer
  split at hissuer
  next heligible =>
    simp only [Bool.and_eq_true, decide_eq_true_eq, List.any_eq_true] at heligible
    obtain ⟨⟨rfl, issuing, hissuing, ⟨⟨hlogical, -⟩, -⟩, hadmin⟩, hsigned⟩ := heligible
    split at hissuer
    · split at hissuer <;> cases hissuer
      refine ⟨hsigned, .inr ⟨issuing, ?_, hlogical, hadmin⟩⟩
      rw [recordsOf, AssocMap.get_eq_some_iff.mpr hmem]
      exact hissuing
    · cases hissuer
  next => cases hissuer

/-- What an authorization records, if it records anything. -/
theorem authorizeDevice_recorded (authHash : NodeHash) :
    let begun := manager.beginAuthorize ctx conversationId logicalPk cert nowMs rank authHash
    let after := (manager.authorizeDevice ctx conversationId logicalPk cert nowMs rank authHash).2
    after = begun ∨ ∃ issuerPk,
      after = begun.pushRecord conversationId cert.devicePk
        ⟨logicalPk, issuerPk, cert.permissions, cert.expiresAt, rank, authHash⟩ ∧
      cert.conversationId = conversationId ∧ (verifyDelegation cert issuerPk.bytes nowMs).isOk ∧
      manager.MayIssue conversationId logicalPk issuerPk := by
  simp only [authorizeDevice]
  split
  · exact .inl rfl
  next hconversation =>
    rw [not_not] at hconversation
    split
    next hsigned => exact .inr ⟨_, rfl, hconversation, hsigned, .inl rfl⟩
    next =>
      split
      · exact .inl rfl
      next issuer permissions hfound =>
        obtain ⟨hsigned, hissuer⟩ := issuer_of_findSome? _ _ _ _ hfound
        split
        · exact .inl rfl
        · split
          · exact .inl rfl
          · split
            · exact .inl rfl
            · split
              · exact .inl rfl
              · exact .inr ⟨issuer, rfl, hconversation, hsigned, hissuer⟩

end IdentityManager

/-- No record is taken back or changed. -/
theorem IdentityStep.recordsOf_subset (hstep : IdentityStep manager manager')
    (conversationId : ConversationId) (devicePk : PhysicalDevicePk) :
    manager.recordsOf conversationId devicePk ⊆ manager'.recordsOf conversationId devicePk := by
  cases hstep with
  | query ctx conversation device logicalPk nowMs rank =>
      obtain ⟨paths, heq⟩ := manager.isAuthorized_frame ctx conversation device logicalPk nowMs
        rank
      rw [heq]
      exact List.Subset.refl _
  | authorize => exact (authorizeDevice_spec ..).2 _ _
  | _ => exact List.Subset.refl _

theorem IdentityManager.MayIssue.step (hissuer : manager.MayIssue conversationId logicalPk issuerPk)
    (hstep : IdentityStep manager manager') :
    manager'.MayIssue conversationId logicalPk issuerPk := by
  rcases hissuer with hown | ⟨issuing, hissuing, hadmin⟩
  · exact .inl hown
  · exact .inr ⟨issuing, hstep.recordsOf_subset _ _ hissuing, hadmin⟩

theorem IdentityManager.AllCertified.step (hcertified : manager.AllCertified)
    (hstep : IdentityStep manager manager') : manager'.AllCertified := by
  intro conversation device record hmem
  -- A record that was there stays certified.
  have hold : record ∈ manager.recordsOf conversation device →
      manager'.Certifies conversation device record := by
    intro hmem
    obtain ⟨ctx, cert, nowMs, hasked, hissuer, hcert⟩ := hcertified _ _ _ hmem
    exact ⟨ctx, cert, nowMs, hstep.changes_suffix.subset hasked, hissuer.step hstep, hcert⟩
  cases hstep with
  | query ctx conversationId devicePk logicalPk nowMs rank =>
      obtain ⟨paths, heq⟩ := manager.isAuthorized_frame ctx conversationId devicePk logicalPk
        nowMs rank
      rw [heq] at hmem
      exact hold hmem
  | authorize ctx conversationId logicalPk cert nowMs rank authHash =>
      rcases manager.authorizeDevice_recorded ctx cert nowMs rank authHash with
        heq | ⟨issuerPk, heq, hconversation, hsigned, hissuer⟩
      · rw [heq] at hmem
        exact hold hmem
      · rw [heq] at hmem
        rcases IdentityManager.mem_pushRecord hmem with hmem | hnew
        · exact hold hmem
        · cases hnew
          refine ⟨ctx, cert, nowMs, ?_, hissuer.step (.authorize ..), hsigned, hconversation, rfl,
            rfl, rfl⟩
          rw [authorizeDevice_changes]
          exact List.mem_cons_self
  | _ => exact hold hmem

theorem IdentityRun.certified (hrun : IdentityRun manager manager') :
    (manager.AllCertified → manager'.AllCertified) ∧ ∀ conversationId devicePk,
      manager.recordsOf conversationId devicePk ⊆ manager'.recordsOf conversationId devicePk := by
  induction hrun with
  | refl => exact ⟨fun hcertified => hcertified, fun _ _ => List.Subset.refl _⟩
  | tail _ hstep ih =>
      exact ⟨fun hcertified => (ih.1 hcertified).step hstep,
        fun _ _ _ hmem => hstep.recordsOf_subset _ _ (ih.2 _ _ hmem)⟩

/-- In every state of every run each record of a device is certified, and no later command takes
one back. -/
theorem run_allCertified [WireCodec] (selfPk : PhysicalDevicePk)
    (selfLogicalPk : LogicalIdentityPk) (selfSk : Option SigningKey)
    (selfDhSk : Option EphemeralX25519Sk) (rng : Rng) (commands later : List Command) :
    let world := (World.new (.new selfPk selfLogicalPk selfSk selfDhSk rng)).run commands
    world.engine.identityManager.AllCertified ∧ ∀ conversationId devicePk,
      world.engine.identityManager.recordsOf conversationId devicePk ⊆
        (world.run later).engine.identityManager.recordsOf conversationId devicePk :=
  ⟨(IdentityRun.certified (World.run_steps _ commands).evolves.2.identity).1
      (fun _ _ _ hmem => by cases hmem),
    (IdentityRun.certified (World.run_steps _ later).evolves.2.identity).2⟩

end MerkleTox.Core
