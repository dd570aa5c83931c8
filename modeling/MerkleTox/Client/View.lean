import MerkleTox.Client.State
import MerkleTox.Library.LastWriter

/-! # The parts of a view

What a node changes in the state of a client, and what the change does to each part of the
state that a user sees.
-/

namespace MerkleTox.Client

open MerkleTox.Core Library Proto

variable {α : Type}

theorem contains_insertOnce [DecidableEq α] [BEq α] [LawfulBEq α] (set : List α)
    (element other : α) :
    (insertOnce set element).contains other = (set.contains other || element = other) := by
  rw [Bool.eq_iff_iff, List.contains_iff_mem, mem_insertOnce, Bool.or_eq_true,
    List.contains_iff_mem, decide_eq_true_iff, @eq_comm _ element]

theorem contains_filter_ne [DecidableEq α] (set : List α) (element other : α) :
    (set.filter (· ≠ element)).contains other = (set.contains other && element ≠ other) := by
  rw [Bool.eq_iff_iff, List.contains_iff_mem, List.mem_filter, Bool.and_eq_true,
    List.contains_iff_mem, decide_eq_true_iff, decide_eq_true_iff, ne_comm]

structure Post where
  hash : NodeHash
  authorPk : LogicalIdentityPk
  timestamp : Int
  content : Content
  deriving DecidableEq

abbrev Keys := List SignedPreKey × SignedPreKey

/-- What a node changes in the state, apart from the heads. -/
inductive Change
  | nothing
  | message (post : Post)
  | reaction (target : NodeHash) (emoji : String) (user : LogicalIdentityPk)
  | redaction (target : NodeHash)
  | title (text : String)
  | topic (text : String)
  | authorization (author : LogicalIdentityPk) (timestamp : Int) (devicePk : PhysicalDevicePk)
  | revocation (devicePk : PhysicalDevicePk)
  | invitation (invitee : LogicalIdentityPk) (role : MemberRole) (timestamp : Int)
  | announcement (senderPk : PhysicalDevicePk) (keys : Keys)
  deriving DecidableEq

def changeOf (entry : Entry) : Change :=
  let (nodeHash, node) := entry
  match node.content with
  | .text _ | .blob .. | .location .. | .custom .. =>
      .message ⟨nodeHash, node.authorPk, node.networkTimestamp, node.content⟩
  | .reaction target emoji => .reaction target (emojiText emoji) node.authorPk
  | .redaction target _ => .redaction target
  | .control action =>
      match action with
      | .setTitle title => .title title
      | .setTopic topic => .topic topic
      | .authorizeDevice cert => .authorization node.authorPk node.networkTimestamp cert.devicePk
      | .revokeDevice target _ => .revocation target
      | .invite invite =>
          .invitation invite.inviteePk (ChatState.inviteRole invite.role) node.networkTimestamp
      | .announcement preKeys lastResortKey =>
          .announcement node.senderPk (preKeys, lastResortKey)
      | _ => .nothing
  | _ => .nothing

namespace ChatState

def apply (state : ChatState) : Change → ChatState
  | .nothing => state
  | .message post =>
      { state with
          messages := state.messages ++
            [⟨post.hash, post.authorPk, post.timestamp, post.content, [], false⟩] }
  | .reaction target emoji user =>
      state.modifyMessage target fun message =>
        { message with reactions := insertOnce message.reactions (emoji, user) }
  | .redaction target =>
      state.modifyMessage target fun message => { message with isRedacted := true }
  | .title title => { state with title := title }
  | .topic topic => { state with topic := topic }
  | .authorization author timestamp devicePk =>
      { state with
          members := (state.members.orInsert author ⟨author, .member, timestamp, []⟩).modify
            author fun member => { member with devices := insertOnce member.devices devicePk }
          authorizedDevices := insertOnce state.authorizedDevices devicePk }
  | .revocation devicePk => state.revokeDevice devicePk
  | .invitation invitee role timestamp =>
      { state with
          members := state.members.orInsert invitee ⟨invitee, role, timestamp, []⟩ }
  | .announcement senderPk keys =>
      { state with announcements := state.announcements.insert senderPk keys }

variable (state : ChatState)

theorem applyContent_eq (entry : Entry) :
    state.applyContent entry = state.apply (changeOf entry) := by
  obtain ⟨nodeHash, ⟨_, authorPk, senderPk, _, _, timestamp, content, _, _, _⟩⟩ := entry
  cases content with
  | control action => cases action <;> rfl
  | _ => rfl

/-- The state without what a node changes whatever its content. -/
def forget (state : ChatState) : ChatState :=
  { state with heads := [], maxVerifiedRank := 0 }

theorem forget_apply (change : Change) :
    (state.apply change).forget = state.forget.apply change := by
  cases change <;> rfl

theorem forget_applyNode (entry : Entry) :
    (state.applyNode entry).forget = state.forget.apply (changeOf entry) := by
  unfold applyNode
  rw [applyContent_eq, forget_apply]
  rfl

theorem forget_applyNodes (entries : List Entry) :
    (state.applyNodes entries).forget = (entries.map changeOf).foldl apply state.forget := by
  unfold applyNodes
  induction entries generalizing state with
  | nil => rfl
  | cons entry rest ih =>
      rw [List.foldl_cons, ih, forget_applyNode, List.map_cons, List.foldl_cons]

theorem heads_apply (change : Change) :
    (state.apply change).heads = state.heads := by
  cases change <;> rfl

theorem heads_applyNode (entry : Entry) :
    (state.applyNode entry).heads = (state.advance entry).heads := by
  unfold applyNode
  rw [applyContent_eq, heads_apply]

/-! ## What the state holds -/

def memberOf (state : ChatState) (pk : LogicalIdentityPk) : Option (MemberRole × Int) :=
  (state.members.get pk).map fun member => (member.role, member.joinedAt)

def listsDevice (state : ChatState) (pk : LogicalIdentityPk) (devicePk : PhysicalDevicePk) :
    Bool :=
  (state.members.get pk).any fun member => member.devices.contains devicePk

def authorizes (state : ChatState) (devicePk : PhysicalDevicePk) : Bool :=
  state.authorizedDevices.contains devicePk

def posts (state : ChatState) : List Post :=
  state.messages.map fun message =>
    ⟨message.hash, message.authorPk, message.timestamp, message.content⟩

def hasMessage (state : ChatState) (target : NodeHash) : Bool :=
  state.messages.any fun message => message.hash = target

/-- A property of the message that a reaction or redaction to a hash finds. -/
def messageIs (state : ChatState) (target : NodeHash) (test : ChatMessage → Bool) : Bool :=
  (state.messages.find? fun message => message.hash = target).any test

def reacted (state : ChatState) (target : NodeHash) (emoji : String) (user : LogicalIdentityPk) :
    Bool :=
  state.messageIs target fun message => message.reactions.contains (emoji, user)

def redacted (state : ChatState) (target : NodeHash) : Bool :=
  state.messageIs target ChatMessage.isRedacted

end ChatState

/-! ## What a change says of each part of the state -/

namespace Change

def titleOf : Change → Option String
  | .title text => some text
  | _ => none

def topicOf : Change → Option String
  | .topic text => some text
  | _ => none

/-- The role and the time with which a change would introduce a member. -/
def introduces (pk : LogicalIdentityPk) : Change → Option (MemberRole × Int)
  | .authorization author timestamp _ => if author = pk then some (.member, timestamp) else none
  | .invitation invitee role timestamp => if invitee = pk then some (role, timestamp) else none
  | _ => none

/-- Whether a device is authorized, after a change that concerns it. -/
def authorizes (devicePk : PhysicalDevicePk) : Change → Option Bool
  | .authorization _ _ device => if device = devicePk then some true else none
  | .revocation device => if device = devicePk then some false else none
  | _ => none

/-- Whether a device belongs to a member, after a change that concerns both. -/
def listsDevice (pk : LogicalIdentityPk) (devicePk : PhysicalDevicePk) : Change → Option Bool
  | .authorization author _ device =>
      if author = pk ∧ device = devicePk then some true else none
  | .revocation device => if device = devicePk then some false else none
  | _ => none

def announcementOf (senderPk : PhysicalDevicePk) : Change → Option Keys
  | .announcement sender keys => if sender = senderPk then some keys else none
  | _ => none

def postOf : Change → Option Post
  | .message post => some post
  | _ => none

def isPost (target : NodeHash) : Change → Bool
  | .message post => post.hash = target
  | _ => false

def reacts (target : NodeHash) (emoji : String) (user : LogicalIdentityPk) (change : Change) :
    Bool :=
  change = .reaction target emoji user

def redacts (target : NodeHash) (change : Change) : Bool := change = .redaction target

end Change

namespace ChatState

variable (state : ChatState)

theorem title_apply (change : Change) :
    (state.apply change).title = change.titleOf.getD state.title := by
  cases change <;> rfl

theorem topic_apply (change : Change) :
    (state.apply change).topic = change.topicOf.getD state.topic := by
  cases change <;> rfl

theorem announcements_apply (senderPk : PhysicalDevicePk) (state : ChatState) (change : Change) :
    (state.apply change).announcements.get senderPk =
      (change.announcementOf senderPk).or (state.announcements.get senderPk) := by
  cases change with
  | announcement sender keys =>
      unfold apply Change.announcementOf
      dsimp only
      rw [AssocMap.get_insert]
      by_cases heq : sender = senderPk
      · rw [if_pos heq, if_pos heq.symm]
        rfl
      · rw [if_neg heq, if_neg fun h => heq h.symm]
        rfl
  | _ => rfl

theorem authorizes_apply (devicePk : PhysicalDevicePk) (state : ChatState) (change : Change) :
    (state.apply change).authorizes devicePk =
      (change.authorizes devicePk).getD (state.authorizes devicePk) := by
  cases change with
  | authorization author timestamp device =>
      refine (contains_insertOnce state.authorizedDevices device devicePk).trans ?_
      by_cases heq : device = devicePk <;> simp [Change.authorizes, authorizes, heq]
  | revocation device =>
      refine (contains_filter_ne state.authorizedDevices device devicePk).trans ?_
      by_cases heq : device = devicePk <;> simp [Change.authorizes, authorizes, heq]
  | _ => rfl

theorem memberOf_orInsert (members : AssocMap LogicalIdentityPk MemberInfo)
    (pk key : LogicalIdentityPk) (member : MemberInfo) :
    ((members.orInsert key member).get pk).map (fun member => (member.role, member.joinedAt)) =
      ((members.get pk).map fun member => (member.role, member.joinedAt)).or
        (if key = pk then some (member.role, member.joinedAt) else none) := by
  by_cases heq : key = pk
  · subst heq
    rw [AssocMap.get_orInsert_self, if_pos rfl]
    cases members.get key <;> rfl
  · rw [AssocMap.get_orInsert_of_ne _ _ fun h => heq h.symm, if_neg heq, Option.or_none]

theorem memberOf_apply (pk : LogicalIdentityPk) (state : ChatState) (change : Change) :
    (state.apply change).memberOf pk = (state.memberOf pk).or (change.introduces pk) := by
  cases change with
  | authorization author timestamp device =>
      have hkept : ((state.apply (.authorization author timestamp device)).memberOf pk) =
          ((state.members.orInsert author ⟨author, .member, timestamp, []⟩).get pk).map
            fun member => (member.role, member.joinedAt) := by
        unfold memberOf apply
        dsimp only
        by_cases heq : pk = author
        · rw [heq, AssocMap.get_modify_self, Option.map_map]
          rfl
        · rw [AssocMap.get_modify_of_ne _ _ heq]
      rw [hkept]
      exact memberOf_orInsert state.members pk author _
  | invitation invitee role timestamp => exact memberOf_orInsert state.members pk invitee _
  | revocation device =>
      unfold memberOf apply revokeDevice
      dsimp only
      rw [AssocMap.get_mapValues, Option.map_map]
      exact (Option.or_none).symm
  | _ => exact (Option.or_none).symm

theorem listsDevice_apply (pk : LogicalIdentityPk) (devicePk : PhysicalDevicePk)
    (state : ChatState) (change : Change) :
    (state.apply change).listsDevice pk devicePk =
      (change.listsDevice pk devicePk).getD (state.listsDevice pk devicePk) := by
  cases change with
  | authorization author timestamp device =>
      unfold listsDevice apply Change.listsDevice
      dsimp only
      by_cases hauthor : author = pk
      · subst hauthor
        rw [AssocMap.get_modify_self, AssocMap.get_orInsert_self, Option.map_some, Option.any_some,
          contains_insertOnce]
        by_cases heq : device = devicePk
        · simp [heq]
        · cases state.members.get author <;> simp [heq]
      · rw [AssocMap.get_modify_of_ne _ _ fun h => hauthor h.symm,
          AssocMap.get_orInsert_of_ne _ _ fun h => hauthor h.symm, if_neg fun h => hauthor h.1]
        rfl
  | invitation invitee role timestamp =>
      unfold listsDevice apply Change.listsDevice
      dsimp only
      by_cases heq : invitee = pk
      · subst heq
        rw [AssocMap.get_orInsert_self]
        cases state.members.get invitee <;> simp
      · rw [AssocMap.get_orInsert_of_ne _ _ fun h => heq h.symm]
        rfl
  | revocation device =>
      unfold listsDevice apply Change.listsDevice revokeDevice
      dsimp only
      rw [AssocMap.get_mapValues]
      cases state.members.get pk with
      | none => by_cases heq : device = devicePk <;> simp [heq]
      | some member =>
          rw [Option.map_some, Option.any_some, contains_filter_ne]
          by_cases heq : device = devicePk <;> simp [heq]
  | _ => rfl

/-! ## Messages -/

theorem map_modifyFirst {β : Type} {test : α → Bool} {f : α → α} {view : α → β}
    (hview : ∀ element, view (f element) = view element) (list : List α) :
    (modifyFirst test f list).map view = list.map view := by
  induction list with
  | nil => rfl
  | cons element rest ih =>
      unfold modifyFirst
      split
      · rw [List.map_cons, List.map_cons, hview]
      · rw [List.map_cons, List.map_cons, ih]

theorem find_modifyFirst_self {test : α → Bool} {f : α → α}
    (hkept : ∀ element, test (f element) = test element) (list : List α) :
    (modifyFirst test f list).find? test = (list.find? test).map f := by
  induction list with
  | nil => rfl
  | cons element rest ih =>
      unfold modifyFirst
      by_cases htest : test element = true
      · rw [if_pos htest, List.find?_cons_of_pos htest,
          List.find?_cons_of_pos ((hkept element).trans htest), Option.map_some]
      · rw [if_neg htest, List.find?_cons_of_neg htest, List.find?_cons_of_neg htest, ih]

theorem find_modifyFirst_of_disjoint {test other : α → Bool} {f : α → α}
    (hkept : ∀ element, other (f element) = other element)
    (hdisjoint : ∀ element, test element = true → ¬ other element = true) (list : List α) :
    (modifyFirst test f list).find? other = list.find? other := by
  induction list with
  | nil => rfl
  | cons element rest ih =>
      unfold modifyFirst
      by_cases htest : test element = true
      · have hother := hdisjoint element htest
        rw [if_pos htest, List.find?_cons_of_neg hother,
          List.find?_cons_of_neg (by rw [hkept]; exact hother)]
      · rw [if_neg htest]
        by_cases hother : other element = true
        · rw [List.find?_cons_of_pos hother, List.find?_cons_of_pos hother]
        · rw [List.find?_cons_of_neg hother, List.find?_cons_of_neg hother, ih]

theorem posts_apply (change : Change) :
    (state.apply change).posts = state.posts ++ change.postOf.toList := by
  cases change with
  | message post => exact List.map_append
  | reaction target emoji user =>
      refine Eq.trans ?_ (List.append_nil _).symm
      exact map_modifyFirst (by intro; rfl) state.messages
  | redaction target =>
      refine Eq.trans ?_ (List.append_nil _).symm
      exact map_modifyFirst (by intro; rfl) state.messages
  | _ => exact (List.append_nil _).symm

variable (target : NodeHash)

theorem hasMessage_eq :
    state.hasMessage target = state.posts.any fun post => post.hash = target := by
  unfold hasMessage posts
  rw [List.any_map]
  rfl

theorem hasMessage_apply (state : ChatState) (change : Change) :
    (state.apply change).hasMessage target =
      (state.hasMessage target || change.isPost target) := by
  rw [hasMessage_eq, posts_apply, List.any_append, ← hasMessage_eq]
  cases change <;> simp [Change.postOf, Change.isPost]

theorem messageIs_modifyMessage (target other : NodeHash)
    {f : ChatMessage → ChatMessage} (hhash : ∀ message, (f message).hash = message.hash)
    (test : ChatMessage → Bool) :
    (state.modifyMessage target f).messageIs other test =
      if target = other then state.messageIs other (fun message => test (f message))
      else state.messageIs other test := by
  unfold messageIs modifyMessage
  dsimp only
  split
  next heq =>
    subst heq
    rw [find_modifyFirst_self fun message => by rw [hhash], Option.any_map]
  next hne =>
    rw [find_modifyFirst_of_disjoint (fun message => by rw [hhash])]
    intro message hmessage hother
    exact hne ((decide_eq_true_iff.mp hmessage).symm.trans (decide_eq_true_iff.mp hother))

/-- A new message changes what is found under its hash only if nothing was found. -/
theorem messageIs_message (post : Post) (target : NodeHash)
    {test : ChatMessage → Bool}
    (hfresh : test ⟨post.hash, post.authorPk, post.timestamp, post.content, [], false⟩ = false) :
    (state.apply (.message post)).messageIs target test = state.messageIs target test := by
  unfold messageIs apply
  dsimp only
  rw [List.find?_append]
  cases state.messages.find? fun message => message.hash = target with
  | some message => rfl
  | none =>
      rw [Option.none_or, List.find?_singleton]
      split
      · exact hfresh
      · rfl

theorem messageIs_or (test other : ChatMessage → Bool) :
    state.messageIs target (fun message => test message || other message) =
      (state.messageIs target test || state.messageIs target other) := by
  unfold messageIs
  cases state.messages.find? fun message => message.hash = target <;> rfl

theorem messageIs_const (value : Bool) :
    state.messageIs target (fun _ => value) = (state.hasMessage target && value) := by
  have hfound : state.hasMessage target =
      (state.messages.find? fun message => message.hash = target).isSome := by
    rw [Bool.eq_iff_iff, List.find?_isSome]
    exact List.any_eq_true
  unfold messageIs
  rw [hfound]
  cases state.messages.find? fun message => message.hash = target <;> rfl

theorem reacted_apply (emoji : String) (user : LogicalIdentityPk)
    (state : ChatState) (change : Change) :
    (state.apply change).reacted target emoji user =
      (state.reacted target emoji user ||
        state.hasMessage target && change.reacts target emoji user) := by
  cases change with
  | message post =>
      refine (messageIs_message state post target rfl).trans ?_
      simp [reacted, Change.reacts]
  | reaction other otherEmoji otherUser =>
      refine (messageIs_modifyMessage state other target (by intro; rfl) _).trans ?_
      rw [funext fun message : ChatMessage => contains_insertOnce message.reactions
        (otherEmoji, otherUser) (emoji, user), messageIs_or, messageIs_const]
      by_cases heq : other = target <;> simp [reacted, Change.reacts, heq]
  | redaction other =>
      refine (messageIs_modifyMessage state other target (by intro; rfl) _).trans ?_
      simp [reacted, Change.reacts]
  | _ => simp [reacted, Change.reacts, apply, revokeDevice, messageIs]

theorem redacted_apply (state : ChatState) (change : Change) :
    (state.apply change).redacted target =
      (state.redacted target || state.hasMessage target && change.redacts target) := by
  cases change with
  | message post =>
      refine (messageIs_message state post target rfl).trans ?_
      simp [redacted, Change.redacts]
  | reaction other otherEmoji otherUser =>
      refine (messageIs_modifyMessage state other target (by intro; rfl) _).trans ?_
      simp [redacted, Change.redacts]
  | redaction other =>
      refine (messageIs_modifyMessage state other target (by intro; rfl) _).trans ?_
      -- Setting the flag is a disjunction with the constant test, as for a reaction.
      rw [funext fun message : ChatMessage => (Bool.or_true message.isRedacted).symm,
        messageIs_or, messageIs_const]
      by_cases heq : other = target <;> simp [redacted, Change.redacts, heq]
  | _ => simp [redacted, Change.redacts, apply, revokeDevice, messageIs]

end ChatState

end MerkleTox.Client
