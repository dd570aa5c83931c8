import MerkleTox.Core.Engine
import MerkleTox.Library.Run

/-! # The materialized view of a client

`merkle_tox_client`: the chat state that a client builds from the events of verified
nodes, one node at a time, and rebuilds from the store on a refresh. The policies that
author nodes in answer to an event leave the state alone.
-/

namespace MerkleTox.Client

open MerkleTox.Core Library Proto

inductive MemberRole
  | admin | member
  deriving DecidableEq, Repr

structure MemberInfo where
  publicKey : LogicalIdentityPk
  role : MemberRole
  joinedAt : Int
  devices : List PhysicalDevicePk
  deriving DecidableEq, Repr

/-- A message; its reactions are the pairs of an emoji and a user. -/
structure ChatMessage where
  hash : NodeHash
  authorPk : LogicalIdentityPk
  timestamp : Int
  content : Content
  reactions : List (String × LogicalIdentityPk)
  isRedacted : Bool
  deriving DecidableEq, Repr

structure ChatState where
  conversationId : ConversationId
  title : String
  topic : String
  members : AssocMap LogicalIdentityPk MemberInfo
  authorizedDevices : List PhysicalDevicePk
  announcements : AssocMap PhysicalDevicePk (List SignedPreKey × SignedPreKey)
  messages : List ChatMessage
  heads : List NodeHash
  maxVerifiedRank : Nat

/-- A node with the hash it is reported under. -/
abbrev Entry := NodeHash × MerkleNode

/-- What a refresh reads from the store, each list in the order of the store. -/
structure Stored where
  adminNodes : List MerkleNode
  contentNodes : List MerkleNode
  heads : List NodeHash
  adminHeads : List NodeHash

def emojiText : EmojiSource → String
  | .unicode text => text
  | .custom _ shortcode => shortcode

/-- Rewrite the first element that passes a test. -/
def modifyFirst {α : Type} (test : α → Bool) (f : α → α) : List α → List α
  | [] => []
  | element :: rest =>
      if test element then f element :: rest else element :: modifyFirst test f rest

namespace ChatState

def new (conversationId : ConversationId) : ChatState :=
  ⟨conversationId, "", "", .empty, [], .empty, [], [], 0⟩

/-- Rewrite the message a reaction or a redaction points at. -/
def modifyMessage (state : ChatState) (target : NodeHash) (f : ChatMessage → ChatMessage) :
    ChatState :=
  { state with messages := modifyFirst (fun message => message.hash = target) f state.messages }

/-- The heads and the rank after a node. -/
def advance (state : ChatState) (entry : Entry) : ChatState :=
  { state with
      heads := insertOnce (state.heads.filter fun head => !entry.2.parents.contains head) entry.1
      maxVerifiedRank := max state.maxVerifiedRank entry.2.topologicalRank }

def authorizeDevice (state : ChatState) (node : MerkleNode) (devicePk : PhysicalDevicePk) :
    ChatState :=
  { state with
      members := (state.members.orInsert node.authorPk
        ⟨node.authorPk, .member, node.networkTimestamp, []⟩).modify node.authorPk fun member =>
          { member with devices := insertOnce member.devices devicePk }
      authorizedDevices := insertOnce state.authorizedDevices devicePk }

def revokeDevice (state : ChatState) (devicePk : PhysicalDevicePk) : ChatState :=
  { state with
      authorizedDevices := state.authorizedDevices.filter (· ≠ devicePk)
      members := state.members.mapValues fun _ member =>
        { member with devices := member.devices.filter (· ≠ devicePk) } }

def inviteRole (role : Nat) : MemberRole := if role = 1 then .admin else .member

def invite (state : ChatState) (node : MerkleNode) (action : InviteAction) : ChatState :=
  { state with
      members := state.members.orInsert action.inviteePk
        ⟨action.inviteePk, inviteRole action.role, node.networkTimestamp, []⟩ }

/-- What the content of a node does to the state. -/
def applyContent (state : ChatState) (entry : Entry) : ChatState :=
  let (nodeHash, node) := entry
  match node.content with
  | .text _ | .blob .. | .location .. | .custom .. =>
      { state with
          messages := state.messages ++
            [⟨nodeHash, node.authorPk, node.networkTimestamp, node.content, [], false⟩] }
  | .reaction target emoji =>
      state.modifyMessage target fun message =>
        { message with
            reactions := insertOnce message.reactions (emojiText emoji, node.authorPk) }
  | .redaction target _ =>
      state.modifyMessage target fun message => { message with isRedacted := true }
  | .control action =>
      match action with
      | .setTitle title => { state with title := title }
      | .setTopic topic => { state with topic := topic }
      | .authorizeDevice cert => state.authorizeDevice node cert.devicePk
      | .revokeDevice target _ => state.revokeDevice target
      | .invite invite => state.invite node invite
      | .announcement preKeys lastResortKey =>
          { state with
              announcements := state.announcements.insert node.senderPk (preKeys, lastResortKey) }
      | _ => state
  | _ => state

/-- `apply_node_internal`. -/
def applyNode (state : ChatState) (entry : Entry) : ChatState :=
  (state.advance entry).applyContent entry

def applyNodes (state : ChatState) (entries : List Entry) : ChatState :=
  entries.foldl applyNode state

end ChatState

variable [Primitives]

/-- The nodes of a refresh in the order they are applied in: the admin track first. -/
def Stored.entries (stored : Stored) : List Entry :=
  (stored.adminNodes ++ stored.contentNodes).map fun node => (hash node, node)

/-- `refresh_state`. -/
def refreshState (conversationId : ConversationId) (stored : Stored) : ChatState :=
  { (ChatState.new conversationId).applyNodes stored.entries with
      heads := stored.adminHeads.foldl insertOnce stored.heads }

/-- What reaches a client: events of its node, and refreshes. -/
inductive Command
  | event (event : NodeEvent)
  | refresh (stored : Stored)

/-- `handle_event`, as far as it concerns the state, and `refresh_state`. -/
def step (conversationId : ConversationId) (state : ChatState) : Command → ChatState
  | .event (.nodeVerified eventConversation nodeHash node) =>
      if eventConversation = conversationId then state.applyNode (nodeHash, node) else state
  | .event _ => state
  | .refresh stored => refreshState conversationId stored

/-- The state of a client that has started with an empty view. -/
def run (conversationId : ConversationId) (commands : List Command) : ChatState :=
  runFrom (step conversationId) (.new conversationId) commands

end MerkleTox.Client
