import MerkleTox.Core.Delegation
import MerkleTox.Core.Membership

/-! # The cache of paths

A query for the authorization of a device is answered from the cache if the same
device was found authorized for the same identity and the same evaluated node, and
the chain found then has not expired. The rank and the ancestors of the query are not
part of the key, so the answer is that of the recursion as long as queries with the
same key agree on them.
-/

namespace MerkleTox.Core

open Library

/-- The arguments of a query. -/
structure Query where
  ctx : CausalContext
  conversationId : ConversationId
  devicePk : PhysicalDevicePk
  logicalPk : LogicalIdentityPk
  nowMs : Int
  rank : Nat

namespace Query

def key (query : Query) : PathKey :=
  (query.conversationId, query.devicePk, query.logicalPk, query.ctx.evaluatingNodeHash)

def command (query : Query) : IdentityCommand :=
  .isAuthorized query.ctx query.conversationId query.devicePk query.logicalPk query.nowMs
    query.rank

/-- The answer that goes through the cache. -/
def answer (query : Query) (manager : IdentityManager) : Bool :=
  (manager.isAuthorized query.ctx query.conversationId query.devicePk query.logicalPk query.nowMs
    query.rank).1

/-- The answer of the recursion. -/
def uncached (query : Query) (manager : IdentityManager) : Option Int :=
  manager.isAuthorizedRecursive query.ctx query.conversationId query.logicalPk query.nowMs
    query.rank (maxAuthDepth + 1) query.devicePk

/-- Two queries are of the same rank and, unless they are global, of the same ancestors. -/
def Agrees (query earlier : Query) : Prop :=
  query.rank = earlier.rank ∧
    (query.ctx.evaluatingNodeHash = .zero ∨
      (query.ctx.adminAncestorHashes ⊆ earlier.ctx.adminAncestorHashes ∧
        earlier.ctx.adminAncestorHashes ⊆ query.ctx.adminAncestorHashes))

instance (query earlier : Query) : Decidable (query.Agrees earlier) := by
  unfold Agrees
  infer_instance

end Query

namespace IdentityManager

variable {manager : IdentityManager} {ctx : CausalContext} {conversationId : ConversationId}
variable {logicalPk : LogicalIdentityPk} {nowMs : Int} {rank depth : Nat}
variable {devicePk : PhysicalDevicePk}

/-- A record that counts at one time counts at every time before it expires. -/
theorem mem_activeRecords_before {record : AuthRecord} {otherMs : Int}
    (hactive : record ∈ manager.activeRecords ctx conversationId logicalPk nowMs rank devicePk)
    (hbefore : otherMs < record.expiresAt) :
    record ∈ manager.activeRecords ctx conversationId logicalPk otherMs rank devicePk := by
  obtain ⟨hmem, hactive⟩ := List.mem_filter.mp hactive
  refine List.mem_filter.mpr ⟨hmem, ?_⟩
  simp only [recordActive_eq, recordEligible, Bool.and_eq_true, decide_eq_true_eq] at hactive ⊢
  obtain ⟨⟨⟨⟨hlogical, _⟩, hrank⟩, hhistory⟩, hunrevoked⟩ := hactive
  exact ⟨⟨⟨⟨hlogical, hbefore⟩, hrank⟩, hhistory⟩, hunrevoked⟩

/-- A chain holds at every time before it expires. -/
theorem isAuthorizedRecursive_before {expires otherMs : Int}
    (h : manager.isAuthorizedRecursive ctx conversationId logicalPk nowMs rank depth devicePk =
      some expires) (hbefore : otherMs < expires) :
    (manager.isAuthorizedRecursive ctx conversationId logicalPk otherMs rank depth
      devicePk).isSome = true := by
  rw [isAuthorizedRecursive_eq] at h ⊢
  induction depth generalizing devicePk expires with
  | zero => cases h
  | succ depth ih =>
      unfold Delegation.value at h ⊢
      split at h
      next hmaster =>
        rw [if_pos hmaster]
        rfl
      next hmaster =>
        rw [if_neg hmaster]
        -- The latest expiry is that of one chain, and the first link of this chain counts
        -- at the other time too.
        have hlink := (mem_of_foldl_combine (fun left right => max_choice left right) h).resolve_left
          (by rintro ⟨⟩)
        obtain ⟨record, hactive, hvalue⟩ := hlink
        have hholds : otherMs < record.expiresAt ∧
            ((expiry logicalPk).linkValue ((expiry logicalPk).value
              (manager.activeRecords ctx conversationId logicalPk otherMs rank) depth
                record.issuerPk) record).isSome = true := by
          unfold Delegation.linkValue at hvalue ⊢
          split at hvalue
          next hissuer =>
            cases hvalue
            exact ⟨hbefore, by rw [if_pos hissuer]; rfl⟩
          next hissuer =>
            obtain ⟨issuerExpires, hchain, rfl⟩ := Option.map_eq_some_iff.mp hvalue
            have hboth := lt_min_iff.mp hbefore
            refine ⟨hboth.1, ?_⟩
            rw [if_neg hissuer, Option.isSome_map]
            exact ih hchain hboth.2
        exact isSome_foldl_combine
          (.inr ⟨record, mem_activeRecords_before hactive hholds.1, hholds.2⟩)

/-- The ancestors matter as a set, and not at all to a global query. -/
theorem activeRecords_congr {other : CausalContext}
    (hnode : ctx.evaluatingNodeHash = other.evaluatingNodeHash)
    (hancestors : ctx.evaluatingNodeHash = .zero ∨
      (ctx.adminAncestorHashes ⊆ other.adminAncestorHashes ∧
        other.adminAncestorHashes ⊆ ctx.adminAncestorHashes)) :
    manager.activeRecords ctx conversationId logicalPk nowMs rank =
      manager.activeRecords other conversationId logicalPk nowMs rank := by
  have hcontains : ∀ hash : NodeHash,
      (decide (ctx.evaluatingNodeHash = .zero) || ctx.adminAncestorHashes.contains hash) =
        (decide (other.evaluatingNodeHash = .zero) ||
          other.adminAncestorHashes.contains hash) := by
    intro hash
    rw [← hnode]
    rcases hancestors with hzero | ⟨hsubset, hsuperset⟩
    · rw [hzero]
      rfl
    · rw [Bool.eq_iff_iff]
      simp only [Bool.or_eq_true, List.contains_iff_mem]
      exact or_congr_right ⟨fun hmem => hsubset hmem, fun hmem => hsuperset hmem⟩
  have heligible : recordEligible ctx logicalPk nowMs rank =
      recordEligible other logicalPk nowMs rank := by
    funext record
    have h := hcontains record.authHash
    unfold recordEligible
    rw [Bool.or_right_comm, h, Bool.or_right_comm]
  have hrevokes : manager.revokes ctx conversationId rank =
      manager.revokes other conversationId rank := by
    funext record revocation
    unfold revokes
    rw [Bool.or_assoc, hcontains revocation.revocationHash, ← Bool.or_assoc]
  funext devicePk
  unfold activeRecords
  refine List.filter_congr fun record _ => ?_
  rw [recordActive_eq, recordActive_eq, heligible, hrevokes]

end IdentityManager

namespace Query

variable {query : Query} {manager : IdentityManager}

/-- The recursion reads the records and the revocations. -/
theorem uncached_of_same {after before : IdentityManager}
    (hrecords : after.authorizedDevices = before.authorizedDevices)
    (hrevocations : after.revokedDevices = before.revokedDevices) (query : Query) :
    query.uncached after = query.uncached before := by
  obtain ⟨_, _, _, _, _⟩ := after
  obtain ⟨_, _, _, _, _⟩ := before
  cases hrecords
  cases hrevocations
  unfold uncached
  rw [IdentityManager.isAuthorizedRecursive_eq, IdentityManager.isAuthorizedRecursive_eq]
  rfl

/-- A query that agrees with one found authorized is authorized until the chain found
then expires. -/
theorem Agrees.uncached_isSome {earlier : Query} {expires : Int} (hagrees : query.Agrees earlier)
    (hkey : earlier.key = query.key) (hstored : earlier.uncached manager = some expires)
    (hbefore : query.nowMs < expires) : (query.uncached manager).isSome = true := by
  obtain ⟨hrank, hancestors⟩ := hagrees
  simp only [key, Prod.mk.injEq] at hkey
  obtain ⟨hconversation, hdevice, hlogical, hnode⟩ := hkey
  have hheld := IdentityManager.isAuthorizedRecursive_before hstored hbefore
  unfold uncached
  rw [IdentityManager.isAuthorizedRecursive_eq] at hheld ⊢
  rw [IdentityManager.activeRecords_congr hnode.symm hancestors, ← hconversation, ← hlogical,
    ← hdevice, hrank]
  exact hheld

/-- The expiry that a query leaves in the cache: none for an identity's own key and for
a query that the cache answers. -/
def stores (query : Query) (manager : IdentityManager) : Option Int :=
  if query.devicePk = query.logicalPk.toPhysical then none
  else if (manager.pathCache.peek query.key).any (query.nowMs < ·) then none
  else query.uncached manager

theorem answer_eq (query : Query) (manager : IdentityManager) :
    query.answer manager = (decide (query.devicePk = query.logicalPk.toPhysical) ||
      (manager.pathCache.peek query.key).any (query.nowMs < ·) ||
      (query.uncached manager).isSome) := by
  unfold answer IdentityManager.isAuthorized
  by_cases hmaster : query.devicePk = query.logicalPk.toPhysical
  · simp only [hmaster, if_true, decide_true, Bool.true_or]
  · simp only [hmaster, if_false, decide_false, Bool.false_or, LruCache.get_fst]
    by_cases hcached : (manager.pathCache.peek query.key).any (query.nowMs < ·) = true
    · rw [hcached, Bool.true_or]
      simp only [key] at hcached
      rw [if_pos hcached]
    · rw [Bool.not_eq_true] at hcached
      rw [hcached, Bool.false_or]
      simp only [key] at hcached
      simp only [hcached, Bool.false_eq_true, if_false, uncached]
      split <;> simp_all

/-- What a query leaves in the cache is the entry it stores and, under other keys, what
was there. -/
theorem mem_pathCache {entry : PathKey × Int}
    (h : entry ∈ (manager.isAuthorized query.ctx query.conversationId query.devicePk
      query.logicalPk query.nowMs query.rank).2.pathCache.entries) :
    (∃ expires, query.stores manager = some expires ∧ entry = (query.key, expires)) ∨
      (entry ∈ manager.pathCache.entries ∧
        ((query.stores manager).isSome → entry.1 ≠ query.key)) := by
  unfold IdentityManager.isAuthorized at h
  unfold stores
  split at h
  next hmaster => exact .inr ⟨h, by rw [if_pos hmaster]; rintro ⟨⟩⟩
  next hmaster =>
    simp only [LruCache.get_fst] at h
    rw [if_neg hmaster]
    split at h
    next hcached => exact .inr ⟨LruCache.mem_get h, by rw [key, if_pos hcached]; rintro ⟨⟩⟩
    next hcached =>
      rw [key, if_neg hcached]
      unfold uncached
      split at h
      next expires hsome =>
        rcases LruCache.mem_put h with rfl | ⟨hold, hkey⟩
        · exact .inl ⟨expires, hsome, rfl⟩
        · exact .inr ⟨LruCache.mem_get hold, fun _ => hkey⟩
      next hnone => exact .inr ⟨LruCache.mem_get h, by rw [hnone]; rintro ⟨⟩⟩

end Query

/-! ## Runs -/

/-- A manager with the queries that its cache was filled by, the latest for each key. -/
structure Memoized where
  manager : IdentityManager
  stored : List (Query × Int)

namespace Memoized

def new : Memoized := ⟨.new, []⟩

/-- Note a query that fills the cache. -/
def note (state : Memoized) (query : Query) : List (Query × Int) :=
  match query.stores state.manager with
  | some expires =>
      (query, expires) :: state.stored.filter fun entry => entry.1.key ≠ query.key
  | none => state.stored

def step [Primitives] (state : Memoized) (command : IdentityCommand) : Memoized where
  manager := state.manager.step command
  stored :=
    match command with
    | .isAuthorized ctx conversationId devicePk logicalPk nowMs rank =>
        state.note ⟨ctx, conversationId, devicePk, logicalPk, nowMs, rank⟩
    | _ => state.stored

/-- An entry that answers a query was stored by one of the same rank and ancestors. -/
def Answers (state : Memoized) (query : Query) : Prop :=
  ∀ entry ∈ state.stored, entry.1.key = query.key →
    state.manager.pathCache.peek query.key = some entry.2 → query.nowMs < entry.2 →
      query.Agrees entry.1

instance (state : Memoized) (query : Query) : Decidable (state.Answers query) := by
  unfold Answers
  infer_instance

def Consistent (state : Memoized) : IdentityCommand → Prop
  | .isAuthorized ctx conversationId devicePk logicalPk nowMs rank =>
      state.Answers ⟨ctx, conversationId, devicePk, logicalPk, nowMs, rank⟩
  | _ => True

/-- Every entry of the cache is what the recursion gives for the query that stored it. -/
def Sound (state : Memoized) : Prop :=
  ∀ key expires, (key, expires) ∈ state.manager.pathCache.entries →
    ∃ query, (query, expires) ∈ state.stored ∧ query.key = key ∧
      query.uncached state.manager = some expires

variable {state : Memoized}

theorem sound_new : new.Sound := fun _ _ h => nomatch h

/-- In a sound state the cache answers as the recursion does. -/
theorem Sound.answer (hsound : state.Sound) {query : Query} (hanswers : state.Answers query) :
    query.answer state.manager = (query.uncached state.manager).isSome := by
  rw [Query.answer_eq]
  by_cases hmaster : query.devicePk = query.logicalPk.toPhysical
  · have hsome : query.uncached state.manager = some IdentityManager.i64Max := by
      unfold Query.uncached IdentityManager.isAuthorizedRecursive
      rw [if_pos hmaster]
    rw [hsome]
    simp [hmaster]
  · rw [decide_eq_false hmaster, Bool.false_or]
    cases hcached : (state.manager.pathCache.peek query.key).any (query.nowMs < ·) with
    | false => rw [Bool.false_or]
    | true =>
        obtain ⟨expires, hpeek, hbefore⟩ := (Option.any_eq_true _ _).mp hcached
        obtain ⟨earlier, hmem, hkey, hstored⟩ :=
          hsound query.key expires (LruCache.mem_of_peek hpeek)
        have hbefore := of_decide_eq_true hbefore
        have hagrees := hanswers (earlier, expires) hmem hkey hpeek hbefore
        rw [hagrees.uncached_isSome hkey hstored hbefore]
        rfl

/-- A change that empties the cache leaves nothing to show. -/
theorem sound_of_empty (hempty : state.manager.pathCache.entries = []) : state.Sound := by
  intro key expires hmem
  rw [hempty] at hmem
  cases hmem

/-- A change that leaves the cache, the records and the revocations alone keeps it
sound. -/
theorem Sound.of_same (hsound : state.Sound) {manager : IdentityManager}
    (hcache : manager.pathCache = state.manager.pathCache)
    (hrecords : manager.authorizedDevices = state.manager.authorizedDevices)
    (hrevocations : manager.revokedDevices = state.manager.revokedDevices) :
    Sound ⟨manager, state.stored⟩ := by
  intro key expires hmem
  obtain ⟨query, hstored, hkey, huncached⟩ := hsound key expires (hcache ▸ hmem)
  exact ⟨query, hstored, hkey, (Query.uncached_of_same hrecords hrevocations query).trans huncached⟩

/-- Revoking the devices of a member empties the cache, if there are any. -/
theorem removeMember_cases (manager : IdentityManager) (conversationId : ConversationId)
    (revokerPk : PhysicalDevicePk) (revokerLogicalPk logicalPk : LogicalIdentityPk) (rank : Nat)
    (nowMs : Int) (revocationHash : NodeHash) :
    (manager.removeMember conversationId revokerPk revokerLogicalPk logicalPk rank nowMs
        revocationHash = manager.dropMember conversationId logicalPk) ∨
      (manager.removeMember conversationId revokerPk revokerLogicalPk logicalPk rank nowMs
        revocationHash).pathCache.entries = [] := by
  unfold IdentityManager.removeMember
  simp only
  generalize manager.dropMember conversationId logicalPk = removed
  cases removed.devicesOf conversationId logicalPk with
  | nil => exact .inl rfl
  | cons devicePk rest =>
      right
      rw [List.foldl_cons]
      exact List.foldlRecOn rest _
        (motive := fun manager : IdentityManager => manager.pathCache.entries = []) rfl
        fun _ _ _ _ => rfl

theorem Sound.query [Primitives] (hsound : state.Sound) (query : Query) :
    (state.step query.command).Sound := by
  intro key expires hmem
  have hsame : ∀ other : Query,
      other.uncached (state.manager.step query.command) = other.uncached state.manager := by
    intro other
    refine Query.uncached_of_same ?_ ?_ other
    all_goals
      unfold IdentityManager.step Query.command IdentityManager.isAuthorized
      simp only
      split_ifs
      · rfl
      · rfl
      · split <;> rfl
  have hstored : (state.step query.command).stored = state.note query := rfl
  rw [hstored]
  unfold note
  rcases Query.mem_pathCache hmem with ⟨expires, hstores, heq⟩ | ⟨hold, hother⟩
  · cases heq
    rw [hstores]
    refine ⟨query, List.mem_cons_self, rfl, ?_⟩
    refine (hsame query).trans ?_
    unfold Query.stores at hstores
    split_ifs at hstores
    exact hstores
  · obtain ⟨earlier, hearlier, hkey, huncached⟩ := hsound key expires hold
    refine ⟨earlier, ?_, hkey, (hsame earlier).trans huncached⟩
    cases hstores : query.stores state.manager with
    | none => exact hearlier
    | some new =>
        refine List.mem_cons_of_mem _ (List.mem_filter.mpr ⟨hearlier, ?_⟩)
        rw [hkey]
        exact decide_eq_true (hother (by rw [hstores]; rfl))

theorem Sound.step [Primitives] (hsound : state.Sound) (command : IdentityCommand) :
    (state.step command).Sound := by
  cases command with
  | addMember conversationId logicalPk role joinedAt => exact hsound.of_same rfl rfl rfl
  | removeMember conversationId revokerPk revokerLogicalPk logicalPk rank nowMs revocationHash =>
      rcases removeMember_cases state.manager conversationId revokerPk revokerLogicalPk logicalPk
        rank nowMs revocationHash with hdropped | hempty
      · unfold Memoized.step IdentityManager.step
        simp only [hdropped]
        exact hsound.of_same rfl rfl rfl
      · exact sound_of_empty hempty
  | authorizeDevice ctx conversationId logicalPk cert nowMs rank authHash =>
      exact sound_of_empty (authorizeDevice_spec state.manager ctx conversationId logicalPk cert
        nowMs rank authHash).1
  | revokeDevice conversationId revokerPk revokerLogicalPk target rank nowMs revocationHash =>
      exact sound_of_empty rfl
  | isAuthorized ctx conversationId devicePk logicalPk nowMs rank =>
      exact hsound.query ⟨ctx, conversationId, devicePk, logicalPk, nowMs, rank⟩

/-- Noting queries does not change what the manager does. -/
theorem runFrom_manager [Primitives] (commands : List IdentityCommand) (state : Memoized) :
    (runFrom step state commands).manager =
      runFrom IdentityManager.step state.manager commands := by
  induction commands generalizing state with
  | nil => rfl
  | cons command rest ih => exact ih (state.step command)

end Memoized

/-- In every run in which the cache answers no query of another rank or other ancestors
than the one that filled it, every answer is that of the recursion. -/
theorem isAuthorized_eq_recursive [Primitives] (commands : List IdentityCommand)
    (hmeets : RunMeets Memoized.step Memoized.Consistent .new commands)
    (earlier later : List IdentityCommand) (query : Query)
    (hcommands : commands = earlier ++ query.command :: later) :
    query.answer (runFrom IdentityManager.step .new earlier) =
      (query.uncached (runFrom IdentityManager.step .new earlier)).isSome := by
  rw [hcommands, runMeets_append] at hmeets
  have hsound : (runFrom Memoized.step .new earlier).Sound :=
    runFrom_invariant (fun state command hsound => hsound.step command) earlier
      Memoized.sound_new
  have hanswer := hsound.answer hmeets.2.1
  rw [Memoized.runFrom_manager] at hanswer
  exact hanswer

namespace PathCache

/-! ## A query of a lower rank -/

open Reference

/-- The founder authorizes the device 10 at rank 5. -/
def authorization : IdentityCommand :=
  .authorizeDevice .global room ⟨1⟩ (certificate ⟨10⟩) 1000 5 ⟨100⟩

/-- A query for the device, as of a node that follows the authorization. -/
def deviceQuery (nowMs : Int) (rank : Nat) : Query :=
  ⟨⟨⟨200⟩, [⟨100⟩]⟩, room, ⟨10⟩, ⟨1⟩, nowMs, rank⟩

/-- At rank 6 the device is found authorized, and at rank 4 the cache says so too. -/
theorem cache_ignores_rank :
    let manager := runFrom IdentityManager.step .new
      [authorization, (deviceQuery 1000 6).command]
    (deviceQuery 1000 4).answer manager = true ∧
      ((deviceQuery 1000 4).uncached manager).isSome = false := by
  decide +kernel

/-- At another time but the same rank the cache is right. -/
theorem isAuthorized_eq_recursive_later :
    (deviceQuery 2000 6).answer
        (runFrom IdentityManager.step .new [authorization, (deviceQuery 1000 6).command]) =
      ((deviceQuery 2000 6).uncached
        (runFrom IdentityManager.step .new
          [authorization, (deviceQuery 1000 6).command])).isSome := by
  refine isAuthorized_eq_recursive
    [authorization, (deviceQuery 1000 6).command, (deviceQuery 2000 6).command] ?_
    [authorization, (deviceQuery 1000 6).command] [] (deviceQuery 2000 6) rfl
  have hfirst : (Memoized.new.step authorization).Answers (deviceQuery 1000 6) := by
    decide +kernel
  have hsecond : ((Memoized.new.step authorization).step (deviceQuery 1000 6).command).Answers
      (deviceQuery 2000 6) := by
    decide +kernel
  exact ⟨trivial, hfirst, hsecond, trivial⟩

end PathCache

end MerkleTox.Core
