import MerkleTox.Library.Unwinding
import MerkleTox.Reconcile.Session
import MerkleTox.Wire.RoundTrip

/-! # Answering batch requests

A peer with a session in a conversation asks for nodes by their hashes. What the store has under
a hash is sent: the wire node, or the node itself, packed without encryption. The store finds
both by the hash alone, for whichever conversation they were written.
-/

namespace MerkleTox.Reconcile

open MerkleTox.Core MerkleTox.Wire Library

/-- A `MerkleNode` message to a peer. -/
structure NodePacket where
  peerPk : PhysicalDevicePk
  conversationId : ConversationId
  nodeHash : NodeHash
  node : WireNode
  deriving DecidableEq, Repr

/-- What an engine reads of itself to answer a batch request. -/
structure Responder where
  peerBlacklist : AssocMap PhysicalDevicePk BlacklistState
  sessions : AssocMap (PhysicalDevicePk × ConversationId) PeerSession
  pendingCache : PendingCache

namespace Responder

def clearPending (responder : Responder) : Responder :=
  { responder with pendingCache := .new }

def isBlacklisted (responder : Responder) (senderPk : PhysicalDevicePk) (nowMs : Int) : Bool :=
  (responder.peerBlacklist.get senderPk).any fun state => state.isActive nowMs

variable [WireCrypto]

/-- The wire node under a hash, or else the node, packed on the fly. -/
def wireNodeOf (overlay : Overlay) (nodeHash : NodeHash) : Option WireNode :=
  match overlay.getWireNode nodeHash with
  | some wire => some wire
  | none => (overlay.getNode nodeHash).map fun node => packWire node .exception true

def handleFetchBatchReq (responder : Responder) (senderPk : PhysicalDevicePk)
    (req : FetchBatchReq) (store : InMemoryStore) : List NodePacket :=
  if responder.sessions.contains (senderPk, req.conversationId) then
    req.hashes.filterMap fun nodeHash =>
      (wireNodeOf ⟨store, responder.pendingCache⟩ nodeHash).map fun wire =>
        ⟨senderPk, req.conversationId, nodeHash, wire⟩
  else []

/-- `handle_message` on a batch request. -/
def handleMessage (responder : Responder) (senderPk : PhysicalDevicePk) (req : FetchBatchReq)
    (store : InMemoryStore) (nowMs : Int) : List NodePacket :=
  let responder := responder.clearPending
  if responder.isBlacklisted senderPk nowMs then []
  else responder.handleFetchBatchReq senderPk req store

end Responder

/-! ## Writes of several conversations -/

end MerkleTox.Reconcile

namespace MerkleTox.Core.Write

def conversationId : Write → ConversationId
  | putNode conversationId _ _ => conversationId
  | markVerified conversationId _ => conversationId
  | setHeads conversationId _ => conversationId
  | setAdminHeads conversationId _ => conversationId
  | putWireNode conversationId _ _ => conversationId
  | removeWireNode conversationId _ => conversationId

/-- The write changes which node or wire node is under a hash. -/
def touches [Primitives] : Write → NodeHash → Prop
  | putNode _ node _, nodeHash => Core.hash node = nodeHash
  | putWireNode _ written _, nodeHash => written = nodeHash
  | removeWireNode _ removed, nodeHash => removed = nodeHash
  | _, _ => False

end MerkleTox.Core.Write

namespace MerkleTox.Reconcile

open MerkleTox.Core MerkleTox.Wire Library

section Contents

variable [Primitives]

/-- The entries of a store under a hash. -/
def entriesAt (nodeHash : NodeHash) (store : InMemoryStore) :
    Option (ConversationId × WireNode) × Option MerkleNode :=
  (store.wireNodes.get nodeHash, store.getNode nodeHash)

theorem wireNodes_putNode (store : InMemoryStore) (node : MerkleNode) (verified : Bool) :
    (store.putNode node verified).wireNodes = store.wireNodes := by
  cases verified <;> rfl

omit [Primitives] in
theorem wireNodes_markVerified (store : InMemoryStore) (marked : NodeHash) :
    (store.markVerified marked).wireNodes = store.wireNodes := by
  obtain ⟨seqs, hframe⟩ := store.markVerified_frame marked
  rw [hframe]

/-- What one write leaves under a hash. -/
theorem entriesAt_write (nodeHash : NodeHash) (store : InMemoryStore) (write : Write) :
    entriesAt nodeHash (store.write write) =
      match write with
      | .putNode _ node _ =>
          (store.wireNodes.get nodeHash,
            if nodeHash = Core.hash node then some node else store.getNode nodeHash)
      | .putWireNode conversationId written wire =>
          (if nodeHash = written then some (conversationId, wire)
            else store.wireNodes.get nodeHash, store.getNode nodeHash)
      | .removeWireNode _ removed =>
          (if nodeHash = removed then none else store.wireNodes.get nodeHash,
            store.getNode nodeHash)
      | _ => entriesAt nodeHash store := by
  cases write with
  | putNode conversationId node verified =>
      rw [entriesAt, InMemoryStore.write, wireNodes_putNode, InMemoryStore.getNode_putNode]
  | markVerified conversationId marked =>
      rw [entriesAt, InMemoryStore.write, wireNodes_markVerified,
        InMemoryStore.getNode_markVerified]
      rfl
  | setHeads conversationId heads => rfl
  | setAdminHeads conversationId heads => rfl
  | putWireNode conversationId written wire =>
      have hwires : (store.putWireNode conversationId written wire).wireNodes.get nodeHash =
          if nodeHash = written then some (conversationId, wire)
          else store.wireNodes.get nodeHash := store.wireNodes.get_insert _ _ _
      rw [entriesAt, InMemoryStore.write, hwires]
      rfl
  | removeWireNode conversationId removed =>
      have hwires : (store.removeWireNode removed).wireNodes.get nodeHash =
          if nodeHash = removed then none else store.wireNodes.get nodeHash := by
        split
        next heq => rw [heq]; exact store.wireNodes.get_erase_self removed
        next hne => exact store.wireNodes.get_erase_of_ne hne
      rw [entriesAt, InMemoryStore.write, hwires]
      rfl

/-- Writes for other conversations that touch no hash do not show under it. -/
theorem unwinding_write (conversationId : ConversationId) (nodeHash : NodeHash) :
    Unwinding InMemoryStore.write (entriesAt nodeHash)
      (fun write => write.conversationId = conversationId)
      (fun write => ¬ write.touches nodeHash) where
  silent store write _ hsilent := by
    rw [entriesAt_write]
    cases write with
    | putNode _ node _ | putWireNode _ written _
    | removeWireNode _ removed => simp only [if_neg (fun heq => hsilent (Eq.symm heq)), entriesAt]
    | _ => rfl
  respects store store' write hview := by
    obtain ⟨hwires, hnodes⟩ := Prod.ext_iff.mp hview
    have hwires : store.wireNodes.get nodeHash = store'.wireNodes.get nodeHash := hwires
    have hnodes : store.getNode nodeHash = store'.getNode nodeHash := hnodes
    rw [entriesAt_write, entriesAt_write, hwires, hnodes, hview]

/-! ## What the entries stem from -/

/-- What is found was written for a conversation. -/
structure Stems (writes : List Write) (store : InMemoryStore) : Prop where
  wire : ∀ nodeHash conversationId wire,
    store.wireNodes.get nodeHash = some (conversationId, wire) →
      .putWireNode conversationId nodeHash wire ∈ writes
  node : ∀ nodeHash node, store.getNode nodeHash = some node →
    Core.hash node = nodeHash ∧
      ∃ conversationId verified, .putNode conversationId node verified ∈ writes

variable {writes : List Write} {store : InMemoryStore}

theorem Stems.write (hstems : Stems writes store) (write : Write) :
    Stems (writes ++ [write]) (store.write write) := by
  have hold : ∀ {other}, other ∈ writes → other ∈ writes ++ [write] := List.mem_append_left _
  have hnew : write ∈ writes ++ [write] := List.mem_append_right _ List.mem_cons_self
  constructor
  · intro nodeHash conversationId wire hget
    have hentry : (entriesAt nodeHash (store.write write)).1 = some (conversationId, wire) := hget
    rw [entriesAt_write] at hentry
    have hkept := hstems.wire nodeHash conversationId wire
    cases write with
    | putWireNode owner written stored =>
        simp only at hentry
        split at hentry
        next heq => cases hentry; exact heq ▸ hnew
        next => exact hold (hkept hentry)
    | removeWireNode owner removed =>
        simp only at hentry
        split at hentry
        next => cases hentry
        next => exact hold (hkept hentry)
    | _ => exact hold (hkept hentry)
  · intro nodeHash node hget
    have hentry : (entriesAt nodeHash (store.write write)).2 = some node := hget
    rw [entriesAt_write] at hentry
    have hkept : store.getNode nodeHash = some node → Core.hash node = nodeHash ∧
        ∃ conversationId verified, .putNode conversationId node verified ∈ writes ++ [write] := by
      intro hget
      obtain ⟨hhash, conversationId, verified, hmem⟩ := hstems.node nodeHash node hget
      exact ⟨hhash, conversationId, verified, hold hmem⟩
    cases write with
    | putNode owner stored verified =>
        simp only at hentry
        split at hentry
        next heq => cases hentry; exact ⟨heq.symm, owner, verified, hnew⟩
        next => exact hkept hentry
    | _ => exact hkept hentry

theorem stems_writeAll (writes : List Write) : Stems writes (InMemoryStore.new.writeAll writes) := by
  induction writes using List.reverseRecOn with
  | nil => exact ⟨(fun _ _ _ hget => nomatch hget), (fun _ _ hget => nomatch hget)⟩
  | append_singleton writes write ih =>
      rw [InMemoryStore.writeAll, List.foldl_append]
      exact ih.write write

end Contents

/-! ## Isolation -/

section Isolation

variable [Primitives] [WireCrypto]

/-- A wire node was written for a conversation, or a node which is packed to it. -/
def StoredIn (writes : List Write) (conversationId : ConversationId) (nodeHash : NodeHash)
    (wire : WireNode) : Prop :=
  .putWireNode conversationId nodeHash wire ∈ writes ∨
    ∃ node verified, .putNode conversationId node verified ∈ writes ∧
      Core.hash node = nodeHash ∧ wire = packWire node .exception true

/-- The writes for a conversation. -/
def ownWrites (conversationId : ConversationId) (writes : List Write) : List Write :=
  writes.filter fun write => write.conversationId = conversationId

/-- The writes for other conversations are among the allowed ones. -/
def OthersWrite (allowed : Write → Prop) (conversationId : ConversationId)
    (writes : List Write) : Prop :=
  ∀ write ∈ writes, write.conversationId ≠ conversationId → allowed write

variable {writes : List Write}

theorem StoredIn.of_ownWrites {conversationId : ConversationId} {nodeHash : NodeHash}
    {wire : WireNode}
    (hstored : StoredIn (ownWrites conversationId writes) conversationId nodeHash wire) :
    StoredIn writes conversationId nodeHash wire := by
  rcases hstored with hmem | ⟨node, verified, hmem, hhash, hwire⟩
  · exact .inl (List.mem_of_mem_filter hmem)
  · exact .inr ⟨node, verified, List.mem_of_mem_filter hmem, hhash, hwire⟩

omit [Primitives] [WireCrypto] in
theorem OthersWrite.of_forall {allowed : Write → Prop} {conversationId : ConversationId}
    (hwrites : ∀ write ∈ writes, write.conversationId = conversationId ∨ allowed write) :
    OthersWrite allowed conversationId writes :=
  fun write hmem hforeign => (hwrites write hmem).resolve_left hforeign

namespace Responder

variable (responder : Responder) (senderPk : PhysicalDevicePk) (req : FetchBatchReq) (nowMs : Int)

/-- Whatever has been written, the answer to a request holds only what its conversation stores,
and it does not depend on what is written for the others. -/
structure Isolated (allowed : Write → Prop) : Prop where
  stored : ∀ writes, OthersWrite allowed req.conversationId writes →
    ∀ packet ∈ responder.handleMessage senderPk req (InMemoryStore.new.writeAll writes) nowMs,
      packet.conversationId = req.conversationId ∧
        StoredIn writes req.conversationId packet.nodeHash packet.node
  same : ∀ writes writes', OthersWrite allowed req.conversationId writes →
    OthersWrite allowed req.conversationId writes' →
    ownWrites req.conversationId writes = ownWrites req.conversationId writes' →
      responder.handleMessage senderPk req (InMemoryStore.new.writeAll writes) nowMs =
        responder.handleMessage senderPk req (InMemoryStore.new.writeAll writes') nowMs

/-- The sender has a session in the conversation and is not on the blacklist. -/
def serves : Bool :=
  !responder.isBlacklisted senderPk nowMs &&
    responder.sessions.contains (senderPk, req.conversationId)

omit [Primitives] in
theorem handleMessage_eq (store : InMemoryStore) :
    responder.handleMessage senderPk req store nowMs =
      if responder.serves senderPk req nowMs then
        req.hashes.filterMap fun nodeHash => (wireNodeOf ⟨store, .new⟩ nodeHash).map fun wire =>
          ⟨senderPk, req.conversationId, nodeHash, wire⟩
      else [] := by
  have hlisted : responder.clearPending.isBlacklisted senderPk nowMs =
      responder.isBlacklisted senderPk nowMs := rfl
  rw [handleMessage, hlisted, serves, handleFetchBatchReq]
  cases responder.isBlacklisted senderPk nowMs <;> rfl

omit [Primitives] in
theorem wireNodeOf_eq (store : InMemoryStore) (nodeHash : NodeHash) :
    wireNodeOf ⟨store, .new⟩ nodeHash =
      match entriesAt nodeHash store with
      | (some (_, wire), _) => some wire
      | (none, node) => node.map fun node => packWire node .exception true := by
  have hwire : Overlay.getWireNode ⟨store, .new⟩ nodeHash =
      (store.wireNodes.get nodeHash).map Prod.snd := rfl
  have hnode : Overlay.getNode ⟨store, .new⟩ nodeHash = store.getNode nodeHash := rfl
  rw [wireNodeOf, hwire, hnode, entriesAt]
  cases store.wireNodes.get nodeHash <;> rfl

omit [Primitives] in
theorem mem_handleMessage {store : InMemoryStore} {packet : NodePacket} :
    packet ∈ responder.handleMessage senderPk req store nowMs ↔
      responder.serves senderPk req nowMs = true ∧ packet.nodeHash ∈ req.hashes ∧
        wireNodeOf ⟨store, .new⟩ packet.nodeHash = some packet.node ∧
        packet.peerPk = senderPk ∧ packet.conversationId = req.conversationId := by
  rw [handleMessage_eq]
  split
  next hserves =>
    rw [List.mem_filterMap]
    constructor
    · rintro ⟨nodeHash, hmem, hsent⟩
      obtain ⟨wire, hwire, rfl⟩ := Option.map_eq_some_iff.mp hsent
      exact ⟨hserves, hmem, hwire, rfl, rfl⟩
    · rintro ⟨-, hmem, hwire, hpeer, hconversation⟩
      refine ⟨packet.nodeHash, hmem, ?_⟩
      rw [hwire, ← hpeer, ← hconversation]
      rfl
  next hserves => exact ⟨(fun hmem => nomatch hmem), (fun h => absurd h.1 hserves)⟩

variable {nodeHash : NodeHash} {writes : List Write}

/-- What is found under a hash was stored for some conversation. -/
theorem storedIn_of_wireNodeOf {wire : WireNode}
    (hfound : wireNodeOf ⟨InMemoryStore.new.writeAll writes, .new⟩ nodeHash = some wire) :
    ∃ write ∈ writes, StoredIn writes write.conversationId nodeHash wire := by
  have hstems := stems_writeAll writes
  rw [wireNodeOf_eq] at hfound
  split at hfound
  next conversationId stored node hentries =>
    cases hfound
    have hmem := hstems.wire nodeHash conversationId wire (congrArg Prod.fst hentries)
    exact ⟨_, hmem, .inl hmem⟩
  next node hentries =>
    obtain ⟨node, rfl, rfl⟩ := Option.map_eq_some_iff.mp hfound
    obtain ⟨hhash, conversationId, verified, hmem⟩ :=
      hstems.node nodeHash node (congrArg Prod.snd hentries)
    exact ⟨_, hmem, .inr ⟨node, verified, hmem, hhash, rfl⟩⟩

variable {responder senderPk req nowMs} {allowed : Write → Prop}

omit [WireCrypto] in
/-- Writes that touch no requested hash do not change what is found under one. -/
theorem entriesAt_own (req : FetchBatchReq) (writes : List Write) (nodeHash : NodeHash)
    (hothers : OthersWrite (fun write => ¬ write.touches nodeHash) req.conversationId writes) :
    entriesAt nodeHash (InMemoryStore.new.writeAll writes) =
      entriesAt nodeHash (InMemoryStore.new.writeAll (ownWrites req.conversationId writes)) := by
  refine (unwinding_write req.conversationId nodeHash).view_runFrom_filter rfl ?_
  intro write hmem hforeign
  exact hothers write hmem (of_decide_eq_false hforeign)

/-- The requested hashes are left alone by the others. -/
def LeftAlone (req : FetchBatchReq) (allowed : Write → Prop) : Prop :=
  ∀ write, allowed write → write.conversationId ≠ req.conversationId →
    ∀ nodeHash ∈ req.hashes, ¬ write.touches nodeHash

theorem handleMessage_own (halone : LeftAlone req allowed)
    (hothers : OthersWrite allowed req.conversationId writes) :
    responder.handleMessage senderPk req (InMemoryStore.new.writeAll writes) nowMs =
      responder.handleMessage senderPk req
        (InMemoryStore.new.writeAll (ownWrites req.conversationId writes)) nowMs := by
  rw [handleMessage_eq, handleMessage_eq]
  split
  next =>
    refine List.filterMap_congr fun nodeHash hmem => ?_
    have hentries := entriesAt_own req writes nodeHash
      fun write hwrite hforeign =>
        halone write (hothers write hwrite hforeign) hforeign nodeHash hmem
    rw [wireNodeOf_eq, wireNodeOf_eq, hentries]
  next => rfl

theorem Isolated.of_leftAlone (halone : LeftAlone req allowed) :
    responder.Isolated senderPk req nowMs allowed where
  stored writes hothers packet hpacket := by
    rw [handleMessage_own halone hothers] at hpacket
    obtain ⟨-, -, hfound, -, hconversation⟩ :=
      (responder.mem_handleMessage senderPk req nowMs).mp hpacket
    obtain ⟨write, hwrite, hstored⟩ := storedIn_of_wireNodeOf hfound
    have hown : write.conversationId = req.conversationId :=
      of_decide_eq_true (List.mem_filter.mp hwrite).2
    exact ⟨hconversation, StoredIn.of_ownWrites (hown ▸ hstored)⟩
  same writes writes' hothers hothers' hsame := by
    rw [handleMessage_own halone hothers, handleMessage_own halone hothers', hsame]

/-! ## Without isolation -/

/-- A packet that only one of two stores makes the engine send. -/
theorem Isolated.wireNodeOf_eq_none (hisolated : responder.Isolated senderPk req nowMs allowed)
    (hserves : responder.serves senderPk req nowMs = true) (writes writes' : List Write)
    (hothers : OthersWrite allowed req.conversationId writes)
    (hothers' : OthersWrite allowed req.conversationId writes')
    (hsame : ownWrites req.conversationId writes = ownWrites req.conversationId writes')
    (hrequested : nodeHash ∈ req.hashes)
    (hnone : wireNodeOf ⟨InMemoryStore.new.writeAll writes', .new⟩ nodeHash = none) :
    wireNodeOf ⟨InMemoryStore.new.writeAll writes, .new⟩ nodeHash = none := by
  by_contra hfound
  obtain ⟨wire, hwire⟩ := Option.ne_none_iff_exists'.mp hfound
  have hsent : (⟨senderPk, req.conversationId, nodeHash, wire⟩ : NodePacket) ∈
      responder.handleMessage senderPk req (InMemoryStore.new.writeAll writes) nowMs :=
    (responder.mem_handleMessage senderPk req nowMs).mpr ⟨hserves, hrequested, hwire, rfl, rfl⟩
  rw [hisolated.same writes writes' hothers hothers' hsame] at hsent
  obtain ⟨-, -, hwire, -⟩ := (responder.mem_handleMessage senderPk req nowMs).mp hsent
  cases hnone.symm.trans hwire

/-- A wire node to be stored. -/
def blankWire : WireNode := ⟨[], 0, [], [], 0, 0, .signature ⟨0⟩⟩

theorem wireNodeOf_touched {write : Write} (htouches : write.touches nodeHash)
    (hremoves : ∀ conversationId removed, write ≠ .removeWireNode conversationId removed) :
    wireNodeOf ⟨InMemoryStore.new.writeAll [write], .new⟩ nodeHash ≠ none := by
  have hentries : entriesAt nodeHash (InMemoryStore.new.writeAll [write]) = _ :=
    entriesAt_write nodeHash .new write
  rw [wireNodeOf_eq, hentries]
  cases write with
  | putNode _ node _ =>
      have heq : nodeHash = Core.hash node := Eq.symm htouches
      simp only [if_pos heq]
      rintro ⟨⟩
  | putWireNode _ written _ =>
      have heq : nodeHash = written := Eq.symm htouches
      simp only [if_pos heq]
      rintro ⟨⟩
  | removeWireNode conversationId removed => exact absurd rfl (hremoves conversationId removed)
  | markVerified | setHeads | setAdminHeads => exact htouches.elim

omit [Primitives] in
theorem wireNodeOf_new (nodeHash : NodeHash) :
    wireNodeOf ⟨InMemoryStore.new, .new⟩ nodeHash = none := rfl

theorem Isolated.leftAlone (hisolated : responder.Isolated senderPk req nowMs allowed)
    (hserves : responder.serves senderPk req nowMs = true) : LeftAlone req allowed := by
  intro write hallowed hforeign nodeHash hrequested htouches
  have hhidden : ∀ writes, ownWrites req.conversationId (writes ++ [write]) =
      ownWrites req.conversationId writes := by
    intro writes
    rw [ownWrites, List.filter_append, List.filter_cons_of_neg (by simpa using hforeign)]
    exact List.append_nil _
  by_cases hremoves : ∃ conversationId removed, write = .removeWireNode conversationId removed
  · -- the wire node of the conversation is removed on behalf of another one
    obtain ⟨conversationId, removed, rfl⟩ := hremoves
    let kept : List Write := [.putWireNode req.conversationId nodeHash blankWire]
    have hkept : ∀ write ∈ kept, write.conversationId = req.conversationId := by
      intro write hmem
      rw [List.mem_singleton.mp hmem]
      rfl
    have hothers : OthersWrite allowed req.conversationId kept :=
      .of_forall fun write hmem => .inl (hkept write hmem)
    have hothers' : OthersWrite allowed req.conversationId
        (kept ++ [.removeWireNode conversationId removed]) := by
      refine .of_forall fun write hmem => ?_
      rcases List.mem_append.mp hmem with hmem | hmem
      · exact .inl (hkept write hmem)
      · exact .inr (List.mem_singleton.mp hmem ▸ hallowed)
    have hremoved : entriesAt nodeHash (InMemoryStore.new.writeAll
        (kept ++ [.removeWireNode conversationId removed])) = (none, none) := by
      have hwrite := entriesAt_write nodeHash (InMemoryStore.new.writeAll kept)
        (.removeWireNode conversationId removed)
      have heq : nodeHash = removed := Eq.symm htouches
      rw [InMemoryStore.writeAll, List.foldl_append]
      refine hwrite.trans ?_
      simp only [if_pos heq]
      rfl
    have hnone := hisolated.wireNodeOf_eq_none hserves kept _ hothers hothers'
      (hhidden kept).symm hrequested (by rw [wireNodeOf_eq, hremoved]; rfl)
    have htouched : Write.touches (.putWireNode req.conversationId nodeHash blankWire) nodeHash :=
      rfl
    exact wireNodeOf_touched htouched (fun _ _ heq => by cases heq) hnone
  · have hothers : OthersWrite allowed req.conversationId [write] :=
      .of_forall fun other hmem => .inr (List.mem_singleton.mp hmem ▸ hallowed)
    have hothers' : OthersWrite allowed req.conversationId [] :=
      .of_forall fun other hmem => absurd hmem List.not_mem_nil
    have hnone := hisolated.wireNodeOf_eq_none hserves [write] [] hothers hothers' (hhidden [])
      hrequested (wireNodeOf_new nodeHash)
    refine wireNodeOf_touched htouches ?_ hnone
    intro conversationId removed heq
    exact hremoves ⟨conversationId, removed, heq⟩

/-- Answers are isolated exactly if whoever is answered asks for no hash under which another
conversation writes. -/
theorem isolated_iff (responder : Responder) (senderPk : PhysicalDevicePk) (req : FetchBatchReq)
    (nowMs : Int) (allowed : Write → Prop) :
    responder.Isolated senderPk req nowMs allowed ↔
      (responder.serves senderPk req nowMs = true → LeftAlone req allowed) := by
  refine ⟨fun hisolated => hisolated.leftAlone, fun halone => ?_⟩
  by_cases hserves : responder.serves senderPk req nowMs = true
  · exact .of_leftAlone (halone hserves)
  · have hsilent : ∀ store, responder.handleMessage senderPk req store nowMs = [] := by
      intro store
      rw [handleMessage_eq, if_neg hserves]
    exact ⟨fun writes _ packet hmem => absurd (hsilent _ ▸ hmem) List.not_mem_nil,
      fun writes writes' _ _ _ => (hsilent _).trans (hsilent _).symm⟩

end Responder

end Isolation

/-! ## A request for a node of another conversation -/

namespace Reference

open Wire.Reference

/-- A peer with a session in one conversation. -/
def responder : Responder where
  peerBlacklist := .empty
  sessions := AssocMap.empty.insert (⟨3⟩, ⟨1⟩)
    (.handshake (newSession [] false 0 0 100))
  pendingCache := .new

/-- The peer is sent the text of the other conversation in the clear. -/
theorem not_isolated : ¬ responder.Isolated ⟨3⟩ ⟨⟨1⟩, [Core.hash (signed (.text "héllo"))]⟩ 0
    fun _ => True := by
  intro hisolated
  have hserves : responder.serves ⟨3⟩ ⟨⟨1⟩, [Core.hash (signed (.text "héllo"))]⟩ 0 = true := rfl
  have hforeign : (⟨2⟩ : ConversationId) ≠ ⟨1⟩ := by decide
  exact hisolated.leftAlone hserves (.putNode ⟨2⟩ (signed (.text "héllo")) true) trivial hforeign
    _ List.mem_cons_self rfl

end Reference

end MerkleTox.Reconcile
