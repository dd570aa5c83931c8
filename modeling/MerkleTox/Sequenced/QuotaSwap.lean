import Mathlib.Logic.Function.Basic
import MerkleTox.Sequenced.Quota

/-! # Sessions that change their quota

Several quotas, each shared by sessions, and sessions that are moved from one to another by
`set_quota`. The call reserves the bytes of the session at the new quota and ignores whether
they fit, and it leaves those that the old one counts: it moves the bytes only where there
are none.
-/

namespace MerkleTox.Sequenced

open Library

variable {C : Type}

/-- A session with the quota it uses. -/
structure Account (C : Type) where
  quotaKey : Nat
  session : SequenceSession C

/-- The quotas of a process and the live sessions. -/
structure Ledger (C : Type) where
  quotas : Nat → ReassemblyQuota
  accounts : AssocMap Nat (Account C)

inductive LedgerCommand (C : Type)
  | create (key quota : Nat) (config : SessionConfig C)
  | operate (key : Nat) (operation : Operation)
  | setQuota (key quota : Nat)
  | drop (key : Nat)

namespace Ledger

def new (maxBytes : Nat → Nat) : Ledger C := ⟨fun quota => .new (maxBytes quota), .empty⟩

/-- Store a session together with what it has made of its quota. -/
def put (ledger : Ledger C) (key : Nat) (account : Account C) : Ledger C where
  quotas := Function.update ledger.quotas account.quotaKey account.session.quota
  accounts := ledger.accounts.insert key account

section Step

variable [FloatOps] [CongestionControl C]

def step (ledger : Ledger C) : LedgerCommand C → Ledger C
  | .create key quota config =>
      if ledger.accounts.contains key then ledger
      else ledger.put key ⟨quota, .new { config with quota := ledger.quotas quota }⟩
  | .operate key operation =>
      match ledger.accounts.get key with
      | none => ledger
      | some account =>
          if operation.sharesQuota then
            let session := { account.session with quota := ledger.quotas account.quotaKey }
            ledger.put key ⟨account.quotaKey, session.step operation⟩
          else ledger
  | .setQuota key quota =>
      match ledger.accounts.get key with
      | none => ledger
      | some account =>
          ledger.put key ⟨quota, account.session.setQuota (ledger.quotas quota)⟩
  | .drop key =>
      match ledger.accounts.get key with
      | none => ledger
      | some account =>
          let session := { account.session with quota := ledger.quotas account.quotaKey }
          ⟨Function.update ledger.quotas account.quotaKey session.drop, ledger.accounts.erase key⟩

end Step

/-! ## One call of `set_quota` -/

/-- The bytes of a session leave the quota it used and are counted by the new one. -/
def Moved (ledger after : Ledger C) (account : Account C) (quota : Nat) : Prop :=
  ∀ other, (after.quotas other).usedBytes +
      (if other = account.quotaKey then account.session.incomingBufferSize else 0) =
    (ledger.quotas other).usedBytes +
      (if other = quota then account.session.incomingBufferSize else 0)

/-- The new quota cannot hold the bytes, and everything is as before. -/
def Refused (ledger after : Ledger C) (key : Nat) (account : Account C) (quota : Nat) : Prop :=
  (ledger.quotas quota).maxBytes <
      (ledger.quotas quota).usedBytes + account.session.incomingBufferSize ∧
    after.quotas = ledger.quotas ∧
      ∃ same, after.accounts.get key = some same ∧ same.quotaKey = account.quotaKey

/-- Nothing is reserved, or the quota is the one in use and has no room for the bytes again. -/
def Harmless (ledger : Ledger C) : LedgerCommand C → Prop
  | .setQuota key quota =>
      ∀ account, ledger.accounts.get key = some account →
        account.session.incomingBufferSize = 0 ∨
          quota = account.quotaKey ∧ (ledger.quotas quota).maxBytes <
            (ledger.quotas quota).usedBytes + account.session.incomingBufferSize
  | _ => True

variable {ledger : Ledger C} {key quota : Nat} {account : Account C}

theorem step_setQuota [FloatOps] [CongestionControl C]
    (hget : ledger.accounts.get key = some account) :
    ledger.step (.setQuota key quota) =
      ledger.put key ⟨quota, account.session.setQuota (ledger.quotas quota)⟩ := by
  rw [step, hget]

/-- What the call leaves as the new quota. -/
theorem setQuota_quota (session : SequenceSession C) (quota : ReassemblyQuota) :
    (session.setQuota quota).quota =
      if quota.usedBytes + session.incomingBufferSize ≤ quota.maxBytes then
        { quota with usedBytes := quota.usedBytes + session.incomingBufferSize }
      else quota := by
  unfold SequenceSession.setQuota ReassemblyQuota.reserveGuaranteed ReassemblyQuota.reserveUpTo
  rcases Nat.eq_zero_or_pos session.incomingBufferSize with hzero | hpos
  · simp [hzero]
  · by_cases hfits : quota.usedBytes + session.incomingBufferSize ≤ quota.maxBytes
    · simp only [hpos, if_true, if_neg (Nat.not_lt.mpr hfits), if_pos hfits]
    · simp only [hpos, if_true, if_pos (Nat.not_le.mp hfits), if_neg hfits]

theorem usedBytes_step [FloatOps] [CongestionControl C]
    (hget : ledger.accounts.get key = some account) (other : Nat) :
    ((ledger.step (.setQuota key quota)).quotas other).usedBytes =
      (ledger.quotas other).usedBytes +
        if other = quota ∧ (ledger.quotas quota).usedBytes + account.session.incomingBufferSize ≤
          (ledger.quotas quota).maxBytes then account.session.incomingBufferSize else 0 := by
  rw [step_setQuota hget, put]
  dsimp only
  by_cases heq : other = quota
  · subst heq
    rw [Function.update_self, setQuota_quota]
    split
    next hfits => simp [hfits]
    next hfull => simp [hfull]
  · rw [Function.update_of_ne heq]
    simp [heq]

/-- The bytes are moved, or the call is refused, if and only if it is harmless. -/
theorem moved_or_refused_iff [FloatOps] [CongestionControl C]
    (hget : ledger.accounts.get key = some account) :
    ledger.Moved (ledger.step (.setQuota key quota)) account quota ∨
        ledger.Refused (ledger.step (.setQuota key quota)) key account quota ↔
      ledger.Harmless (.setQuota key quota) := by
  have hused : ∀ other, ((ledger.step (.setQuota key quota)).quotas other).usedBytes =
      (ledger.quotas other).usedBytes +
        if other = quota ∧ (ledger.quotas quota).usedBytes + account.session.incomingBufferSize ≤
          (ledger.quotas quota).maxBytes then account.session.incomingBufferSize else 0 :=
    usedBytes_step hget
  have hstored : (ledger.step (.setQuota key quota)).accounts.get key =
      some ⟨quota, account.session.setQuota (ledger.quotas quota)⟩ := by
    rw [step_setQuota hget, put, AssocMap.get_insert_self]
  constructor
  · rintro (hmoved | ⟨hfull, -, same, hsame, hkey⟩) found hfound
    · rw [hget, Option.some.injEq] at hfound
      subst hfound
      -- the old quota has lost nothing
      have hold := hmoved account.quotaKey
      rw [hused, if_pos rfl] at hold
      by_cases heq : account.quotaKey = quota
      · simp only [heq, true_and, if_true] at hold
        split at hold
        next => exact .inl (by omega)
        next hfull => exact .inr ⟨heq.symm, Nat.not_le.mp hfull⟩
      · simp only [heq, false_and, if_false] at hold
        exact .inl (by omega)
    · rw [hget, Option.some.injEq] at hfound
      subst hfound
      rw [hstored, Option.some.injEq] at hsame
      subst hsame
      exact .inr ⟨hkey, hfull⟩
  · intro hharmless
    rcases hharmless account hget with hzero | ⟨heq, hfull⟩
    · left
      intro other
      rw [hused, hzero]
      simp
    · right
      refine ⟨hfull, ?_, _, hstored, heq⟩
      rw [step_setQuota hget, put]
      dsimp only
      rw [setQuota_quota, if_neg (Nat.not_le.mpr hfull), Function.update_eq_self]

/-! ## Runs -/

/-- The bytes that the live sessions hold at a quota. -/
def weightOf (quota : Nat) (account : Account C) : Nat :=
  if account.quotaKey = quota then account.session.incomingBufferSize else 0

def held (ledger : Ledger C) (quota : Nat) : Nat :=
  ledger.accounts.total fun _ account => weightOf quota account

/-- Each quota counts the bytes of the live sessions that use it, and no release has exceeded
what was reserved. -/
structure Conserves (ledger : Ledger C) (maxBytes : Nat → Nat) : Prop where
  sizes : ∀ key account, ledger.accounts.get key = some account →
    account.session.incomingBufferSize = SequenceSession.reservedTotal account.session.incoming
  used : ∀ quota, (ledger.quotas quota).usedBytes = ledger.held quota
  capacity : ∀ quota, (ledger.quotas quota).maxBytes = maxBytes quota
  bounded : ∀ quota, (ledger.quotas quota).usedBytes ≤ maxBytes quota
  sound : ∀ quota, (ledger.quotas quota).overdrawn = false

/-- What the other sessions hold at a quota. -/
def others (ledger : Ledger C) (key quota : Nat) : Nat :=
  (ledger.accounts.erase key).total fun _ account => weightOf quota account

theorem held_eq (ledger : Ledger C) (key quota : Nat) :
    ledger.others key quota +
      ledger.accounts.weightAt (fun _ account => weightOf quota account) key = ledger.held quota :=
  AssocMap.total_erase ledger.accounts (fun _ account => weightOf quota account) key

variable {maxBytes : Nat → Nat}

theorem Conserves.balanced (h : ledger.Conserves maxBytes)
    (hget : ledger.accounts.get key = some account) :
    { account.session with quota := ledger.quotas account.quotaKey }.Balanced
      (maxBytes account.quotaKey) (ledger.others key account.quotaKey) := by
  have hheld := ledger.held_eq key account.quotaKey
  rw [AssocMap.weightAt_of_get _ hget, weightOf, if_pos rfl] at hheld
  refine ⟨h.sizes key account hget, ?_, h.capacity _, h.bounded _, h.sound _⟩
  dsimp only
  rw [h.used, ← hheld, h.sizes key account hget]

/-- The limits hold at every quota when one is put in the place of another. -/
theorem Conserves.update (h : ledger.Conserves maxBytes) (quotaKey : Nat) (after : ReassemblyQuota)
    (hcapacity : after.maxBytes = maxBytes quotaKey) (hbounded : after.usedBytes ≤ maxBytes quotaKey)
    (hsound : after.overdrawn = false) (quota : Nat) :
    (Function.update ledger.quotas quotaKey after quota).maxBytes = maxBytes quota ∧
      (Function.update ledger.quotas quotaKey after quota).usedBytes ≤ maxBytes quota ∧
      (Function.update ledger.quotas quotaKey after quota).overdrawn = false := by
  by_cases heq : quota = quotaKey
  · subst heq
    rw [Function.update_self]
    exact ⟨hcapacity, hbounded, hsound⟩
  · rw [Function.update_of_ne heq]
    exact ⟨h.capacity quota, h.bounded quota, h.sound quota⟩

/-- Storing a session that is balanced against the others of its quota, and that held nothing
at any other quota. -/
theorem Conserves.put (h : ledger.Conserves maxBytes)
    (hbalanced : account.session.Balanced (maxBytes account.quotaKey)
      (ledger.others key account.quotaKey))
    (helsewhere : ∀ quota, quota ≠ account.quotaKey →
      ledger.accounts.weightAt (fun _ account => weightOf quota account) key = 0) :
    (ledger.put key account).Conserves maxBytes := by
  have hquotas := h.update _ _ hbalanced.capacity hbalanced.bounded hbalanced.sound
  refine ⟨?_, ?_, fun quota => (hquotas quota).1, fun quota => (hquotas quota).2.1,
    fun quota => (hquotas quota).2.2⟩
  · exact AssocMap.forall_insert h.sizes hbalanced.size
  · intro quota
    have hinsert := AssocMap.total_insert ledger.accounts
      (fun _ account => weightOf quota account) key account
    have hheld := ledger.held_eq key quota
    have hused := h.used quota
    rw [held] at hheld hused
    rw [held, Ledger.put]
    dsimp only
    by_cases heq : quota = account.quotaKey
    · subst heq
      have hmine := hbalanced.used
      have hsize := hbalanced.size
      rw [Function.update_self]
      rw [weightOf, if_pos rfl] at hinsert
      omega
    · have hnone := helsewhere quota heq
      rw [Function.update_of_ne heq]
      rw [weightOf, if_neg (Ne.symm heq)] at hinsert
      omega

/-- A dropped session gives back what it holds. -/
theorem Conserves.drop (h : ledger.Conserves maxBytes)
    (hget : ledger.accounts.get key = some account) :
    (⟨Function.update ledger.quotas account.quotaKey
        { account.session with quota := ledger.quotas account.quotaKey }.drop,
      ledger.accounts.erase key⟩ : Ledger C).Conserves maxBytes := by
  have hheld : ∀ quota, ledger.others key quota + weightOf quota account = ledger.held quota := by
    intro quota
    have hsplit := ledger.held_eq key quota
    rw [AssocMap.weightAt_of_get _ hget] at hsplit
    exact hsplit
  have hmine := hheld account.quotaKey
  rw [weightOf, if_pos rfl] at hmine
  have hused := h.used account.quotaKey
  have hrelease : { account.session with quota := ledger.quotas account.quotaKey }.drop =
      { ledger.quotas account.quotaKey with
        usedBytes := (ledger.quotas account.quotaKey).usedBytes -
          account.session.incomingBufferSize } := by
    unfold SequenceSession.drop
    dsimp only
    exact ReassemblyQuota.release_of_le (by omega)
  have hquotas := h.update account.quotaKey
    { ledger.quotas account.quotaKey with
      usedBytes := (ledger.quotas account.quotaKey).usedBytes -
        account.session.incomingBufferSize }
    (h.capacity account.quotaKey) ((Nat.sub_le _ _).trans (h.bounded account.quotaKey))
    (h.sound account.quotaKey)
  rw [hrelease]
  refine ⟨?_, ?_, fun quota => (hquotas quota).1, fun quota => (hquotas quota).2.1,
    fun quota => (hquotas quota).2.2⟩
  · intro other found hother
    exact h.sizes other found (AssocMap.get_of_erase hother).2
  · intro quota
    change _ = ledger.others key quota
    dsimp only
    by_cases heq : quota = account.quotaKey
    · subst heq
      rw [Function.update_self]
      dsimp only
      omega
    · have hnone := hheld quota
      rw [weightOf, if_neg (Ne.symm heq)] at hnone
      rw [Function.update_of_ne heq, h.used]
      omega

section Runs

variable [FloatOps] [CongestionControl C]

/-- A session that holds nothing takes nothing along. -/
theorem Conserves.setQuota_of_zero (h : ledger.Conserves maxBytes)
    (hget : ledger.accounts.get key = some account)
    (hzero : account.session.incomingBufferSize = 0) :
    (ledger.step (.setQuota key quota)).Conserves maxBytes := by
  have hstill : (account.session.setQuota (ledger.quotas quota)).quota = ledger.quotas quota := by
    rw [setQuota_quota, hzero]
    split <;> rfl
  have hweight : ∀ quota,
      ledger.accounts.weightAt (fun _ account => weightOf quota account) key = 0 := by
    intro quota
    rw [AssocMap.weightAt_of_get _ hget, weightOf, hzero, ite_self]
  have hothers := ledger.held_eq key quota
  rw [hweight, Nat.add_zero, ← h.used] at hothers
  have hsize := h.sizes key account hget
  rw [step_setQuota hget]
  refine h.put ⟨hsize, ?_, ?_, ?_, ?_⟩ fun other _ => hweight other
  · dsimp only
    rw [hstill, hothers]
    exact (Nat.add_zero _).symm.trans (congrArg _ (hzero.symm.trans hsize))
  · dsimp only
    rw [hstill]
    exact h.capacity quota
  · dsimp only
    rw [hstill]
    exact h.bounded quota
  · dsimp only
    rw [hstill]
    exact h.sound quota

/-- A quota that is in use and has no room for the bytes again is kept as it is. -/
theorem Conserves.setQuota_of_full (h : ledger.Conserves maxBytes)
    (hget : ledger.accounts.get key = some account)
    (hfull : (ledger.quotas account.quotaKey).maxBytes <
      (ledger.quotas account.quotaKey).usedBytes + account.session.incomingBufferSize) :
    (ledger.step (.setQuota key account.quotaKey)).Conserves maxBytes := by
  have hsame : account.session.setQuota (ledger.quotas account.quotaKey) =
      { account.session with quota := ledger.quotas account.quotaKey } := by
    have hquota := setQuota_quota account.session (ledger.quotas account.quotaKey)
    rw [if_neg (Nat.not_le.mpr hfull)] at hquota
    unfold SequenceSession.setQuota at hquota ⊢
    split
    next hpos =>
      rw [if_pos hpos] at hquota
      dsimp only at hquota ⊢
      rw [hquota]
    next => rfl
  rw [step_setQuota hget, hsame]
  refine h.put (h.balanced hget) fun other hother => ?_
  rw [AssocMap.weightAt_of_get _ hget, weightOf, if_neg (Ne.symm hother)]

/-- Every command that is harmless leaves each quota with the bytes of its sessions. -/
theorem Conserves.step (h : ledger.Conserves maxBytes) {command : LedgerCommand C}
    (hharmless : ledger.Harmless command) : (ledger.step command).Conserves maxBytes := by
  cases command with
  | create key quota config =>
      unfold Ledger.step
      dsimp only
      split
      next => exact h
      next habsent =>
        rw [AssocMap.contains_eq, Bool.not_eq_true, Option.isSome_eq_false_iff,
          Option.isNone_iff_eq_none] at habsent
        have hweight : ∀ quota,
            ledger.accounts.weightAt (fun _ account => weightOf quota account) key = 0 :=
          fun quota => AssocMap.weightAt_of_get_none _ habsent
        have hothers := ledger.held_eq key quota
        rw [hweight, Nat.add_zero, ← h.used] at hothers
        exact h.put ⟨rfl, hothers.symm, h.capacity quota, h.bounded quota, h.sound quota⟩
          fun other _ => hweight other
  | operate key operation =>
      unfold Ledger.step
      dsimp only
      split
      next => exact h
      next account hget =>
        split
        next hshares =>
          refine h.put ((h.balanced hget).step hshares) fun other hother => ?_
          rw [AssocMap.weightAt_of_get _ hget, weightOf, if_neg (Ne.symm hother)]
        next => exact h
  | setQuota key quota =>
      cases hget : ledger.accounts.get key with
      | none =>
          unfold Ledger.step
          dsimp only
          rw [hget]
          exact h
      | some account =>
          rcases hharmless account hget with hzero | ⟨heq, hfull⟩
          · exact h.setQuota_of_zero hget hzero
          · subst heq
            exact h.setQuota_of_full hget hfull
  | drop key =>
      unfold Ledger.step
      dsimp only
      split
      next => exact h
      next account hget => exact h.drop hget

/-- In every state, `set_quota` moves the bytes of a session or is refused if and only if the
session holds none or the quota is the one in use and is too full; where all the calls of a
run are of this kind, each quota counts the bytes of its live sessions at the end. -/
theorem setQuota_conserves_iff (maxBytes : Nat → Nat) (commands : List (LedgerCommand C)) :
    (∀ key quota account,
        (runFrom step (Ledger.new maxBytes) commands).accounts.get key = some account →
          ((runFrom step (Ledger.new maxBytes) commands).Moved
                (runFrom step (Ledger.new maxBytes) (commands ++ [.setQuota key quota]))
                account quota ∨
              (runFrom step (Ledger.new maxBytes) commands).Refused
                (runFrom step (Ledger.new maxBytes) (commands ++ [.setQuota key quota]))
                key account quota ↔
            (runFrom step (Ledger.new maxBytes) commands).Harmless (.setQuota key quota))) ∧
      (RunMeets step Harmless (Ledger.new maxBytes) commands →
        (runFrom step (Ledger.new maxBytes) commands).Conserves maxBytes) := by
  constructor
  · intro key quota account hget
    rw [runFrom_append, runFrom_cons, runFrom_nil]
    exact moved_or_refused_iff hget
  · intro hmeets
    have hempty : ∀ key, (Ledger.new maxBytes : Ledger C).accounts.get key = none := fun _ => rfl
    have hnew : (Ledger.new maxBytes : Ledger C).Conserves maxBytes := by
      refine ⟨fun key account hget => ?_, fun _ => rfl, fun _ => rfl,
        fun quota => Nat.zero_le (maxBytes quota), fun _ => rfl⟩
      rw [hempty] at hget
      exact absurd hget.symm (Option.some_ne_none account)
    exact hmeets.invariant (fun ledger : Ledger C => ledger.Conserves maxBytes)
      (fun _ _ h hharmless => h.step hharmless) hnew

end Runs

end Ledger

abbrev referenceLedger (commands : List (LedgerCommand FixedWindow)) : Ledger FixedWindow :=
  runFrom (@Ledger.step FixedWindow exactFloatOps _) (.new fun _ => maxTotalReassemblyBuffer)
    commands

/-- A session is moved before it has received anything, and then receives the first half of a
message. -/
def movedEmpty : List (LedgerCommand FixedWindow) :=
  [.create 0 0 (referenceConfig .left), .setQuota 0 1,
    .operate 0 (.receive (.data 5 0 2 [1]) 1000 0 0)]

theorem setQuota_conserves_empty :
    (referenceLedger movedEmpty).Conserves fun _ => maxTotalReassemblyBuffer := by
  refine (@Ledger.setQuota_conserves_iff FixedWindow exactFloatOps _
    (fun _ => maxTotalReassemblyBuffer) movedEmpty).2 ⟨trivial, ?_, trivial, trivial⟩
  intro account hget
  have hsize : ((referenceLedger (movedEmpty.take 1)).accounts.get 0).map
      (fun account => account.session.incomingBufferSize) = some 0 := by
    decide +kernel
  rw [show (referenceLedger (movedEmpty.take 1)).accounts.get 0 = some account from hget] at hsize
  exact .inl (Option.some.inj hsize)

/-- A session receives the first half of a message. -/
def halfReceived : List (LedgerCommand FixedWindow) :=
  [.create 0 0 (referenceConfig .left), .operate 0 (.receive (.data 5 0 2 [1]) 1000 0 0)]

/-- Moving the session to another quota leaves its bytes at the first one, also after the
session is dropped. -/
theorem setQuota_leaks :
    (∃ account, (referenceLedger halfReceived).accounts.get 0 = some account ∧
        ¬ ((referenceLedger halfReceived).Moved
              (referenceLedger (halfReceived ++ [.setQuota 0 1])) account 1 ∨
            (referenceLedger halfReceived).Refused
              (referenceLedger (halfReceived ++ [.setQuota 0 1])) 0 account 1)) ∧
      (referenceLedger (halfReceived ++ [.setQuota 0 1, .drop 0])).accounts.isEmpty = true ∧
      ((referenceLedger (halfReceived ++ [.setQuota 0 1, .drop 0])).quotas 0).usedBytes = 114 := by
  have hsize : ((referenceLedger halfReceived).accounts.get 0).map
      (fun account => (account.quotaKey, account.session.incomingBufferSize)) = some (0, 114) := by
    decide +kernel
  refine ⟨?_, by decide +kernel, by decide +kernel⟩
  obtain ⟨account, hget, hpair⟩ := Option.map_eq_some_iff.mp hsize
  rw [Prod.mk.injEq] at hpair
  obtain ⟨hkey, hbytes⟩ := hpair
  have hbefore : ((referenceLedger halfReceived).quotas 0).usedBytes = 114 := by decide +kernel
  have hafter : ((referenceLedger (halfReceived ++ [.setQuota 0 1])).quotas 0).usedBytes = 114 := by
    decide +kernel
  have hroom : ((referenceLedger halfReceived).quotas 1).usedBytes + 114 ≤
      ((referenceLedger halfReceived).quotas 1).maxBytes := by
    decide +kernel
  refine ⟨account, hget, ?_⟩
  rintro (hmoved | ⟨hfull, -, -⟩)
  · have hold := hmoved 0
    rw [hkey, hbytes, hbefore, hafter] at hold
    exact absurd hold (by decide)
  · rw [hbytes] at hfull
    exact absurd hroom (Nat.not_le.mpr hfull)

end MerkleTox.Sequenced
