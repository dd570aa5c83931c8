import MerkleTox.Client.View
import MerkleTox.Core.Reference

/-! # Incremental and rebuilt views

The state of a client in terms of the nodes delivered to it, in their order. A refresh
counts as the delivery of the stored nodes in the order of the store. Comparing the two
orders decides whether the view built from events is the one a refresh would build.
-/

namespace MerkleTox.Client

open MerkleTox.Core Library Proto

/-- What a client was given: the heads it read at its last refresh, the nodes that this
refresh applied, and the nodes of the events since. -/
structure History where
  heads : List NodeHash
  rebuilt : List Entry
  since : List Entry

namespace History

def new : History := ⟨[], [], []⟩

/-- All nodes applied to the present state, in their order. -/
def delivered (history : History) : List Entry := history.rebuilt ++ history.since

def changes (history : History) : List Change := history.delivered.map changeOf

end History

/-- What an event says of a hash being a head. -/
def marksHead (nodeHash : NodeHash) (entry : Entry) : Option Bool :=
  if entry.1 = nodeHash then some true
  else if entry.2.parents.contains nodeHash then some false
  else none

/-- A state is what the nodes of its history make of the empty state, with heads from the
last refresh on. -/
structure Reflects (conversationId : ConversationId) (history : History) (state : ChatState) :
    Prop where
  changed : state.forget = history.changes.foldl ChatState.apply (.new conversationId)
  heads : state.heads =
    (history.since.foldl ChatState.advance
      { ChatState.new conversationId with heads := history.heads }).heads

theorem advance_heads_congr {left right : ChatState} (heq : left.heads = right.heads)
    (entry : Entry) : (left.advance entry).heads = (right.advance entry).heads := by
  unfold ChatState.advance
  rw [heq]

theorem Reflects.applyNode {conversationId : ConversationId} {history : History}
    {state : ChatState} (hreflects : Reflects conversationId history state) (entry : Entry) :
    Reflects conversationId { history with since := history.since ++ [entry] }
      (state.applyNode entry) where
  changed := by
    have hchanges : History.changes { history with since := history.since ++ [entry] } =
        history.changes ++ [changeOf entry] := by
      simp [History.changes, History.delivered]
    rw [ChatState.forget_applyNode, hreflects.changed, hchanges, List.foldl_append]
    rfl
  heads := by
    rw [ChatState.heads_applyNode, List.foldl_append]
    exact advance_heads_congr hreflects.heads entry

theorem advance_heads_contains (nodeHash : NodeHash) (state : ChatState) (entry : Entry) :
    (state.advance entry).heads.contains nodeHash =
      (marksHead nodeHash entry).getD (state.heads.contains nodeHash) := by
  have hkept : (state.heads.filter fun head => !entry.2.parents.contains head).contains nodeHash =
      (state.heads.contains nodeHash && !entry.2.parents.contains nodeHash) := by
    rw [Bool.eq_iff_iff, List.contains_iff_mem, List.mem_filter, Bool.and_eq_true,
      List.contains_iff_mem]
  unfold ChatState.advance marksHead
  dsimp only
  rw [contains_insertOnce, hkept]
  by_cases hself : entry.1 = nodeHash
  · rw [if_pos hself, decide_eq_true hself, Bool.or_true]
    rfl
  · rw [if_neg hself, decide_eq_false hself, Bool.or_false]
    cases entry.2.parents.contains nodeHash
    · exact Bool.and_true _
    · exact Bool.and_false _

section Parts

variable {conversationId : ConversationId} {history : History} {state : ChatState}
  (hreflects : Reflects conversationId history state)

include hreflects

theorem Reflects.title : state.title = (lastSome Change.titleOf history.changes).getD "" := by
  have hfold := foldl_lastSome ChatState.apply ChatState.title Change.titleOf
    ChatState.title_apply (.new conversationId) history.changes
  rw [← hreflects.changed] at hfold
  exact hfold

theorem Reflects.topic : state.topic = (lastSome Change.topicOf history.changes).getD "" := by
  have hfold := foldl_lastSome ChatState.apply ChatState.topic Change.topicOf
    ChatState.topic_apply (.new conversationId) history.changes
  rw [← hreflects.changed] at hfold
  exact hfold

theorem Reflects.memberOf (pk : LogicalIdentityPk) :
    state.memberOf pk = history.changes.findSome? (Change.introduces pk) := by
  have hfold := foldl_findSome ChatState.apply (fun state => state.memberOf pk)
    (Change.introduces pk) (ChatState.memberOf_apply pk) (.new conversationId) history.changes
  rw [← hreflects.changed] at hfold
  exact hfold

theorem Reflects.listsDevice (pk : LogicalIdentityPk) (devicePk : PhysicalDevicePk) :
    state.listsDevice pk devicePk =
      (lastSome (Change.listsDevice pk devicePk) history.changes).getD false := by
  have hfold := foldl_lastSome ChatState.apply (fun state => state.listsDevice pk devicePk)
    (Change.listsDevice pk devicePk) (ChatState.listsDevice_apply pk devicePk)
    (.new conversationId) history.changes
  rw [← hreflects.changed] at hfold
  exact hfold

theorem Reflects.authorizes (devicePk : PhysicalDevicePk) :
    state.authorizes devicePk =
      (lastSome (Change.authorizes devicePk) history.changes).getD false := by
  have hfold := foldl_lastSome ChatState.apply (fun state => state.authorizes devicePk)
    (Change.authorizes devicePk) (ChatState.authorizes_apply devicePk) (.new conversationId)
    history.changes
  rw [← hreflects.changed] at hfold
  exact hfold

theorem Reflects.announcements (senderPk : PhysicalDevicePk) :
    state.announcements.get senderPk =
      lastSome (Change.announcementOf senderPk) history.changes := by
  have hfold := foldl_lastSome_or ChatState.apply (fun state => state.announcements.get senderPk)
    (Change.announcementOf senderPk) (ChatState.announcements_apply senderPk)
    (.new conversationId) history.changes
  rw [← hreflects.changed] at hfold
  exact hfold.trans (Option.or_none)

theorem Reflects.posts : state.posts = history.changes.filterMap Change.postOf := by
  have hfold := foldl_filterMap ChatState.apply ChatState.posts Change.postOf
    ChatState.posts_apply (.new conversationId) history.changes
  rw [← hreflects.changed] at hfold
  exact hfold

theorem Reflects.reacted (target : NodeHash) (emoji : String) (user : LogicalIdentityPk) :
    state.reacted target emoji user = true ↔
      Follows (Change.isPost target) (Change.reacts target emoji user) history.changes := by
  have hfold := foldl_follows ChatState.apply (fun state => state.hasMessage target)
    (fun state => state.reacted target emoji user) (Change.isPost target)
    (Change.reacts target emoji user) (ChatState.hasMessage_apply target)
    (ChatState.reacted_apply target emoji user) (.new conversationId) rfl rfl
    history.changes
  rw [← hreflects.changed] at hfold
  exact hfold

theorem Reflects.redacted (target : NodeHash) :
    state.redacted target = true ↔
      Follows (Change.isPost target) (Change.redacts target) history.changes := by
  have hfold := foldl_follows ChatState.apply (fun state => state.hasMessage target)
    (fun state => state.redacted target) (Change.isPost target) (Change.redacts target)
    (ChatState.hasMessage_apply target) (ChatState.redacted_apply target)
    (.new conversationId) rfl rfl history.changes
  rw [← hreflects.changed] at hfold
  exact hfold

theorem Reflects.heads_contains (nodeHash : NodeHash) :
    state.heads.contains nodeHash =
      (lastSome (marksHead nodeHash) history.since).getD (history.heads.contains nodeHash) := by
  rw [hreflects.heads]
  exact foldl_lastSome ChatState.advance (fun state => state.heads.contains nodeHash)
    (marksHead nodeHash) (advance_heads_contains nodeHash) _ history.since

end Parts

/-- Two states show the same view, with each message present once. -/
structure Converged (state rebuilt : ChatState) : Prop where
  title : state.title = rebuilt.title
  topic : state.topic = rebuilt.topic
  members : ∀ pk, state.memberOf pk = rebuilt.memberOf pk
  devices : ∀ pk devicePk, state.listsDevice pk devicePk = rebuilt.listsDevice pk devicePk
  authorizedDevices : ∀ devicePk, state.authorizes devicePk = rebuilt.authorizes devicePk
  announcements : ∀ senderPk,
    state.announcements.get senderPk = rebuilt.announcements.get senderPk
  messages : state.posts.Perm rebuilt.posts
  once : (state.posts.map Post.hash).Nodup
  reactions : ∀ target emoji user,
    state.reacted target emoji user = rebuilt.reacted target emoji user
  redactions : ∀ target, state.redacted target = rebuilt.redacted target
  heads : ∀ nodeHash, nodeHash ∈ state.heads ↔ nodeHash ∈ rebuilt.heads

section Runs

variable [Primitives]

/-- The heads of both tracks of the store, as a refresh joins them. -/
def Stored.allHeads (stored : Stored) : List NodeHash :=
  stored.adminHeads.foldl insertOnce stored.heads

def Stored.history (stored : Stored) : History := ⟨stored.allHeads, stored.entries, []⟩

def History.record (conversationId : ConversationId) (history : History) : Command → History
  | .event (.nodeVerified eventConversation nodeHash node) =>
      if eventConversation = conversationId then
        { history with since := history.since ++ [(nodeHash, node)] }
      else history
  | .event _ => history
  | .refresh stored => stored.history

def historyOf (conversationId : ConversationId) (commands : List Command) : History :=
  runFrom (History.record conversationId) .new commands

theorem refreshState_reflects (conversationId : ConversationId) (stored : Stored) :
    Reflects conversationId stored.history (refreshState conversationId stored) where
  changed := by
    unfold History.changes History.delivered Stored.history
    rw [List.append_nil]
    exact (ChatState.new conversationId).forget_applyNodes stored.entries
  heads := rfl

variable {history : History} {stored : Stored}

theorem Reflects.step {conversationId : ConversationId} {state : ChatState}
    (hreflects : Reflects conversationId history state) (command : Command) :
    Reflects conversationId (history.record conversationId command)
      (step conversationId state command) := by
  cases command with
  | refresh stored => exact refreshState_reflects conversationId stored
  | event event =>
      cases event with
      | nodeVerified eventConversation nodeHash node =>
          unfold History.record Client.step
          dsimp only
          split
          · exact hreflects.applyNode (nodeHash, node)
          · exact hreflects
      | _ => exact hreflects

/-- The state of a client reflects its history after every run. -/
theorem run_reflects (conversationId : ConversationId) (commands : List Command) :
    Reflects conversationId (historyOf conversationId commands) (run conversationId commands) := by
  induction commands using List.reverseRecOn with
  | nil => exact ⟨rfl, rfl⟩
  | append_singleton commands command ih =>
      unfold historyOf run
      rw [runFrom_append, runFrom_append]
      exact ih.step command

/-- What a client shows after any run: all messages, the first or the last word on the rest, and
the reactions and redactions that stand behind their message. -/
theorem run_shows (conversationId : ConversationId) (commands : List Command) :
    let changes := (historyOf conversationId commands).changes
    let state := run conversationId commands
    state.title = (lastSome Change.titleOf changes).getD "" ∧
      state.topic = (lastSome Change.topicOf changes).getD "" ∧
      state.posts = changes.filterMap Change.postOf ∧
      (∀ pk, state.memberOf pk = changes.findSome? (Change.introduces pk)) ∧
      (∀ pk devicePk, state.listsDevice pk devicePk =
        (lastSome (Change.listsDevice pk devicePk) changes).getD false) ∧
      (∀ devicePk, state.authorizes devicePk =
        (lastSome (Change.authorizes devicePk) changes).getD false) ∧
      (∀ senderPk, state.announcements.get senderPk =
        lastSome (Change.announcementOf senderPk) changes) ∧
      (∀ target emoji user, state.reacted target emoji user = true ↔
        Follows (Change.isPost target) (Change.reacts target emoji user) changes) ∧
      ∀ target, state.redacted target = true ↔
        Follows (Change.isPost target) (Change.redacts target) changes := by
  have h := run_reflects conversationId commands
  exact ⟨h.title, h.topic, h.posts, h.memberOf, h.listsDevice, h.authorizes, h.announcements,
    h.reacted, h.redacted⟩

/-! ## Convergence -/

/-- The order of the deliveries agrees with the order of the store wherever it matters: a
message is delivered once, the same node comes last (or first) among those that compete for
a field, a reaction or redaction stands behind its message in both orders or in neither,
and the heads of the store are the nodes no later delivery has for a parent. -/
structure Agrees (history : History) (stored : Stored) : Prop where
  once : ((history.changes.filterMap Change.postOf).map Post.hash).Nodup
  title : lastSome Change.titleOf history.changes =
    lastSome Change.titleOf stored.history.changes
  topic : lastSome Change.topicOf history.changes =
    lastSome Change.topicOf stored.history.changes
  members : ∀ pk, history.changes.findSome? (Change.introduces pk) =
    stored.history.changes.findSome? (Change.introduces pk)
  devices : ∀ pk devicePk, lastSome (Change.listsDevice pk devicePk) history.changes =
    lastSome (Change.listsDevice pk devicePk) stored.history.changes
  authorizedDevices : ∀ devicePk, lastSome (Change.authorizes devicePk) history.changes =
    lastSome (Change.authorizes devicePk) stored.history.changes
  announcements : ∀ senderPk, lastSome (Change.announcementOf senderPk) history.changes =
    lastSome (Change.announcementOf senderPk) stored.history.changes
  reactions : ∀ target emoji user,
    Follows (Change.isPost target) (Change.reacts target emoji user) history.changes ↔
      Follows (Change.isPost target) (Change.reacts target emoji user) stored.history.changes
  redactions : ∀ target,
    Follows (Change.isPost target) (Change.redacts target) history.changes ↔
      Follows (Change.isPost target) (Change.redacts target) stored.history.changes
  heads : ∀ nodeHash,
    (lastSome (marksHead nodeHash) history.since).getD (history.heads.contains nodeHash) =
      stored.allHeads.contains nodeHash

theorem Stored.changes_history (stored : Stored) :
    stored.history.changes = stored.entries.map changeOf := by
  unfold History.changes History.delivered Stored.history
  rw [List.append_nil]

/-- The same nodes make the same changes, in whatever order. -/
theorem mem_changes_iff (hsame : ∀ entry, entry ∈ history.delivered ↔ entry ∈ stored.entries)
    (change : Change) :
    change ∈ history.changes ↔ change ∈ stored.history.changes := by
  rw [stored.changes_history]
  unfold History.changes
  simp only [List.mem_map, hsame]

omit [Primitives] in
theorem hash_of_postOf {entry : Entry} {post : Post} (hpost : (changeOf entry).postOf = some post) :
    post.hash = entry.1 := by
  obtain ⟨nodeHash, ⟨_, _, _, _, _, _, content, _, _, _⟩⟩ := entry
  cases content with
  | control action => cases action <;> cases hpost
  | _ => cases hpost <;> rfl

omit [Primitives] in
theorem posts_sublist (entries : List Entry) :
    (((entries.map changeOf).filterMap Change.postOf).map Post.hash).Sublist
      (entries.map Prod.fst) := by
  induction entries with
  | nil => exact List.Sublist.refl _
  | cons entry rest ih =>
      rw [List.map_cons, List.filterMap_cons, List.map_cons]
      cases hpost : (changeOf entry).postOf with
      | none => exact ih.cons _
      | some post =>
          rw [← hash_of_postOf hpost]
          exact ih.cons_cons _

/-- The messages of both orders are the same once the deliveries repeat none. -/
theorem posts_perm (hsame : ∀ entry, entry ∈ history.delivered ↔ entry ∈ stored.entries)
    (hdistinct : (stored.entries.map Prod.fst).Nodup)
    (honce : ((history.changes.filterMap Change.postOf).map Post.hash).Nodup) :
    (history.changes.filterMap Change.postOf).Perm
      (stored.history.changes.filterMap Change.postOf) := by
  have hstored : (stored.history.changes.filterMap Change.postOf).Nodup := by
    rw [stored.changes_history]
    exact (hdistinct.sublist (posts_sublist stored.entries)).of_map _
  refine (List.perm_ext_iff_of_nodup (honce.of_map _) hstored).mpr fun post => ?_
  simp only [List.mem_filterMap, mem_changes_iff hsame]

/-- The view built from events is the one a refresh builds, with every message once, exactly
if the deliveries agree with the order of the store. -/
theorem converged_iff (conversationId : ConversationId) (commands : List Command)
    (stored : Stored)
    (hsame : ∀ entry, entry ∈ (historyOf conversationId commands).delivered ↔
      entry ∈ stored.entries)
    (hdistinct : (stored.entries.map Prod.fst).Nodup) :
    Converged (run conversationId commands) (refreshState conversationId stored) ↔
      Agrees (historyOf conversationId commands) stored := by
  have hrun := run_reflects conversationId commands
  have hfresh := refreshState_reflects conversationId stored
  -- Either state is a function of its order of delivery, so each part compares the two orders.
  have hmem := mem_changes_iff hsame
  constructor
  · intro hconverged
    refine ⟨?_, ?_, ?_, fun pk => ?_, fun pk devicePk => ?_, fun devicePk => ?_,
      fun senderPk => ?_, fun target emoji user => ?_, fun target => ?_, fun nodeHash => ?_⟩
    · rw [← hrun.posts]
      exact hconverged.once
    · rw [← lastSome_getD_inj hmem, ← hrun.title, ← hfresh.title]
      exact hconverged.title
    · rw [← lastSome_getD_inj hmem, ← hrun.topic, ← hfresh.topic]
      exact hconverged.topic
    · rw [← hrun.memberOf, ← hfresh.memberOf]
      exact hconverged.members pk
    · rw [← lastSome_getD_inj hmem, ← hrun.listsDevice, ← hfresh.listsDevice]
      exact hconverged.devices pk devicePk
    · rw [← lastSome_getD_inj hmem, ← hrun.authorizes, ← hfresh.authorizes]
      exact hconverged.authorizedDevices devicePk
    · rw [← hrun.announcements, ← hfresh.announcements]
      exact hconverged.announcements senderPk
    · rw [← hrun.reacted, ← hfresh.reacted, hconverged.reactions]
    · rw [← hrun.redacted, ← hfresh.redacted, hconverged.redactions]
    · rw [← hrun.heads_contains, Bool.eq_iff_iff, List.contains_iff_mem, List.contains_iff_mem]
      exact hconverged.heads nodeHash
  · intro hagrees
    refine ⟨?_, ?_, fun pk => ?_, fun pk devicePk => ?_, fun devicePk => ?_, fun senderPk => ?_,
      ?_, ?_, fun target emoji user => ?_, fun target => ?_, fun nodeHash => ?_⟩
    · rw [hrun.title, hfresh.title, hagrees.title]
    · rw [hrun.topic, hfresh.topic, hagrees.topic]
    · rw [hrun.memberOf, hfresh.memberOf, hagrees.members]
    · rw [hrun.listsDevice, hfresh.listsDevice, hagrees.devices]
    · rw [hrun.authorizes, hfresh.authorizes, hagrees.authorizedDevices]
    · rw [hrun.announcements, hfresh.announcements, hagrees.announcements]
    · rw [hrun.posts, hfresh.posts]
      exact posts_perm hsame hdistinct hagrees.once
    · rw [hrun.posts]
      exact hagrees.once
    · rw [Bool.eq_iff_iff, hrun.reacted, hfresh.reacted, hagrees.reactions]
    · rw [Bool.eq_iff_iff, hrun.redacted, hfresh.redacted, hagrees.redactions]
    · rw [← List.contains_iff_mem, hrun.heads_contains, hagrees.heads, List.contains_iff_mem]
      rfl

end Runs

namespace Convergence

open Reference

def verified (node : MerkleNode) : Command := .event (.nodeVerified room (hash node) node)

def greeting : MerkleNode :=
  { genesis with
    parents := [hash genesis]
    sequenceNumber := 2
    topologicalRank := 1
    content := .text "hello" }

/-- The founder authorizes a device, beside the text. -/
def authorization : MerkleNode :=
  { genesis with
    parents := [hash genesis]
    sequenceNumber := 2
    topologicalRank := 1
    content := .control (.authorizeDevice (certificate ⟨2⟩)) }

def beside : Stored :=
  ⟨[genesis, authorization], [greeting], [hash greeting], [hash authorization]⟩

/-- Both texts and authorizations on the genesis are heads. -/
theorem beside_heads (nodeHash : NodeHash) :
    (lastSome (marksHead nodeHash) [(hash genesis, genesis), (hash greeting, greeting),
      (hash authorization, authorization)]).getD false = beside.allHeads.contains nodeHash := by
  have hdistinct : hash greeting ≠ hash genesis ∧ hash authorization ≠ hash genesis := by
    decide +kernel
  have hheads : beside.allHeads = [hash greeting, hash authorization] := by decide +kernel
  have hauthorization : authorization.parents = [hash genesis] := rfl
  have hgreeting : greeting.parents = [hash genesis] := rfl
  have hgenesis : genesis.parents = [] := rfl
  rw [hheads, Bool.eq_iff_iff, List.contains_iff_mem]
  simp only [lastSome, List.reverse_cons, List.reverse_nil, List.nil_append, List.cons_append,
    List.findSome?_cons, List.findSome?_nil, marksHead, hauthorization, hgreeting, hgenesis]
  by_cases hroot : nodeHash = hash genesis
  · simp [hroot, hdistinct, Ne.symm hdistinct.1, Ne.symm hdistinct.2]
  · by_cases hfirst : hash authorization = nodeHash
    · simp [hfirst]
    · by_cases hsecond : hash greeting = nodeHash
      · simp [hfirst, hsecond, hroot]
      · simp [hfirst, hsecond, hroot, Ne.symm hroot, Ne.symm hfirst, Ne.symm hsecond]

/-- The text is delivered before the authorization, which a refresh applies first. -/
theorem converged_iff_beside :
    Converged (run room [verified genesis, verified greeting, verified authorization])
      (refreshState room beside) := by
  have hsame : ∀ entry, entry ∈ (historyOf room [verified genesis, verified greeting,
      verified authorization]).delivered ↔ entry ∈ beside.entries := by
    intro entry
    change entry ∈ [(hash genesis, genesis), (hash greeting, greeting),
      (hash authorization, authorization)] ↔ entry ∈ [(hash genesis, genesis),
        (hash authorization, authorization), (hash greeting, greeting)]
    simp only [List.mem_cons]
    tauto
  have hquiet : ∀ change ∈ (historyOf room [verified genesis, verified greeting,
      verified authorization]).changes, (∀ target emoji user,
        change.reacts target emoji user = false) ∧ ∀ target, change.redacts target = false := by
    refine List.forall_mem_cons.mpr ⟨⟨fun _ _ _ => rfl, fun _ => rfl⟩, ?_⟩
    refine List.forall_mem_cons.mpr ⟨⟨fun _ _ _ => rfl, fun _ => rfl⟩, ?_⟩
    exact List.forall_mem_singleton.mpr ⟨fun _ _ _ => rfl, fun _ => rfl⟩
  have hquiet' : ∀ change ∈ beside.history.changes, (∀ target emoji user,
      change.reacts target emoji user = false) ∧ ∀ target, change.redacts target = false :=
    fun change hmem => hquiet change ((mem_changes_iff hsame change).mpr hmem)
  exact (converged_iff room [verified genesis, verified greeting, verified authorization] beside
    hsame (by decide +kernel)).mpr
    { once := List.nodup_singleton (hash greeting)
      title := rfl
      topic := rfl
      members := fun _ => rfl
      devices := fun _ _ => rfl
      authorizedDevices := fun _ => rfl
      announcements := fun _ => rfl
      reactions := fun target emoji user => iff_of_false
        (not_follows fun change hmem => (hquiet change hmem).1 target emoji user)
        (not_follows fun change hmem => (hquiet' change hmem).1 target emoji user)
      redactions := fun target => iff_of_false
        (not_follows fun change hmem => (hquiet change hmem).2 target)
        (not_follows fun change hmem => (hquiet' change hmem).2 target)
      heads := beside_heads }

def greeted : Stored := ⟨[genesis], [greeting], [hash greeting], [hash genesis]⟩

/-- A message whose event comes twice is shown twice. -/
theorem message_shown_twice :
    (∀ entry, entry ∈ (historyOf room [verified genesis, verified greeting,
        verified greeting]).delivered ↔ entry ∈ greeted.entries) ∧
      ¬ Converged (run room [verified genesis, verified greeting, verified greeting])
        (refreshState room greeted) := by
  constructor
  · intro entry
    change entry ∈ [(hash genesis, genesis), (hash greeting, greeting),
      (hash greeting, greeting)] ↔ entry ∈ [(hash genesis, genesis), (hash greeting, greeting)]
    simp
  · intro hconverged
    have honce : ([hash greeting, hash greeting] : List NodeHash).Nodup := hconverged.once
    exact absurd honce (by simp)

end Convergence

end MerkleTox.Client
