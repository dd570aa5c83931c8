import MerkleTox.Core.Overlay
import MerkleTox.Fs.Opaque

/-! # A conversation of the file-system store

What a conversation keeps in its files and in memory. Nodes are written to a journal;
compaction moves them to a pack and starts the journal over. Records are modelled at the
level of the journal's and the pack's entries, so an offset is a position.
-/

namespace MerkleTox.Fs

open Library Proto MerkleTox.Core

/-- A record of the journal; the status byte of a node is `0x01` when it is verified and
`0x02` otherwise. -/
inductive JournalRecord
  | node (verified : Bool) (node : MerkleNode)
  | promotion (nodeHash : NodeHash)
  | ratchetAdvance (nodeHash : NodeHash) (chainKey : ChainKey) (epochId : Nat)
  deriving DecidableEq, Repr

structure Journal where
  generationId : Nat
  records : List JournalRecord
  deriving DecidableEq, Repr

/-- Append a record; its offset is the number of records before it. -/
def Journal.append (journal : Journal) (record : JournalRecord) : Journal :=
  { journal with records := journal.records ++ [record] }

structure IndexRecord where
  hash : NodeHash
  offset : Nat
  rank : Nat
  nodeType : NodeType
  verified : Bool
  adminDistance : Nat
  deriving DecidableEq, Repr

/-- A data file with its index. -/
structure Pack where
  index : List IndexRecord
  data : List (Bool × MerkleNode)
  deriving DecidableEq, Repr

/-- The search of a pack index: `PackIndex::build` and `lookup`. Which of several records
of one hash is found is left open. -/
class IndexSearch where
  lookup : List IndexRecord → NodeHash → Option IndexRecord
  lookup_some : ∀ {records hash record}, lookup records hash = some record →
    record ∈ records ∧ record.hash = hash
  lookup_none : ∀ {records hash}, lookup records hash = none →
    ∀ record ∈ records, record.hash ≠ hash

/-- The node of the record that the index of the pack finds. -/
def Pack.getNodeData [IndexSearch] (pack : Pack) (nodeHash : NodeHash) : Option MerkleNode :=
  (IndexSearch.lookup pack.index nodeHash).bind fun record =>
    (pack.data[record.offset]?).map Prod.snd

structure ConvState where
  heads : List NodeHash
  adminHeads : List NodeHash
  messageCount : Nat
  lastRotationTime : Int
  activePacks : List Nat
  activeJournalId : Nat
  deriving DecidableEq, Repr

def ConvState.initial : ConvState := ⟨[], [], 0, -1, [], 0⟩

structure RatchetSlot where
  devicePk : PhysicalDevicePk
  chainKey : ChainKey
  lastSequenceNumber : Nat
  epochId : Nat
  deriving DecidableEq, Repr

/-- `ChainKey::from([0u8; 32])`, no key. -/
def noKey : ChainKey := ⟨0⟩

/-- The files of a conversation. A pack is there once its index is complete; the ratchet
slots are those of the active buffer. -/
structure ConversationFiles where
  state : Option ConvState
  journal : Journal
  ratchet : List RatchetSlot
  packs : AssocMap Nat Pack
  keys : AssocMap Nat KConv
  opaqueStore : OpaqueStore

/-- The files of a conversation that is opened for the first time. -/
def ConversationFiles.new (now : Nat) : ConversationFiles :=
  ⟨none, ⟨now, []⟩, [], .empty, .empty, .new⟩

structure JournalNodeInfo where
  nodeType : NodeType
  rank : Nat
  adminDistance : Nat
  senderPk : PhysicalDevicePk
  sequenceNumber : Nat
  verified : Bool
  offset : Nat
  deriving DecidableEq, Repr

/-- A conversation in memory, with the files it has open. -/
structure ConversationContext where
  files : ConversationFiles
  state : ConvState
  packs : List Pack
  volatileNodes : AssocMap NodeHash JournalNodeInfo
  hotRatchets : AssocMap NodeHash (ChainKey × Nat)
  lastSeqNumbers : AssocMap PhysicalDevicePk Nat
  childIndex : AssocMap NodeHash (List NodeHash)

def u16Max : Nat := 2 ^ 16 - 1

variable (context : ConversationContext)

namespace ConversationContext

/-- Set the last sequence number of a sender to a higher one. -/
def noteSequence (seqNumbers : AssocMap PhysicalDevicePk Nat) (senderPk : PhysicalDevicePk)
    (seq : Nat) : AssocMap PhysicalDevicePk Nat :=
  seqNumbers.insert senderPk (max seq ((seqNumbers.get senderPk).getD 0))

def saveState (state : ConvState) : ConversationContext :=
  { context with state := state, files := { context.files with state := some state } }

def append (context : ConversationContext) (record : JournalRecord) : ConversationContext :=
  { context with files := { context.files with journal := context.files.journal.append record } }

def hasChildren (nodeHash : NodeHash) : Bool :=
  (context.childIndex.get nodeHash).any fun children => !children.isEmpty

def getLastSequenceNumber (senderPk : PhysicalDevicePk) : Nat :=
  (context.lastSeqNumbers.get senderPk).getD 0

/-- The hashes of the journal's nodes and of the records of the packs that pass a test. -/
def listed (volatile : JournalNodeInfo → Bool) (record : IndexRecord → Bool) : List NodeHash :=
  (context.volatileNodes.entries.filter fun entry => volatile entry.2).map Prod.fst ++
    ((context.packs.flatMap Pack.index).filter record).map IndexRecord.hash

/-- The numbers of verified and of speculative nodes. -/
def getNodeCounts : Nat × Nat :=
  ((context.listed JournalNodeInfo.verified IndexRecord.verified).length,
    (context.listed (fun info => !info.verified) fun record => !record.verified).length)

def verifiedHashes (nodeType : NodeType) : List NodeHash :=
  context.listed (fun info => info.verified && info.nodeType = nodeType) fun record =>
    record.verified && record.nodeType = nodeType

def hashesInRange (range : SyncRange) : List NodeHash :=
  context.listed
    (fun info => info.verified && (range.minRank ≤ info.rank && info.rank ≤ range.maxRank))
    fun record =>
      record.verified && (range.minRank ≤ record.rank && record.rank ≤ range.maxRank)

/-- The hashes of the speculative nodes; only the journal is searched. -/
def speculativeHashes : List NodeHash :=
  (context.volatileNodes.entries.filter fun entry => !entry.2.verified).map Prod.fst

/-- The hashes of the records of the packs. -/
def packedHashes : List NodeHash :=
  (context.packs.flatMap Pack.index).map IndexRecord.hash

def getConversationKeys : List (Nat × KConv) :=
  sortByKey Prod.fst context.files.keys.entries

/-- A conversation whose epoch was never rotated has no metadata. -/
def getEpochMetadata : Option (Nat × Int) :=
  if context.state.lastRotationTime = -1 then none
  else some (context.state.messageCount, context.state.lastRotationTime)

def getRatchetKey (nodeHash : NodeHash) : Option (ChainKey × Nat) :=
  context.hotRatchets.get nodeHash

/-- A node that is speculative in the journal is promoted; there is no promotion in a pack. -/
def markVerified (nodeHash : NodeHash) : ConversationContext :=
  match context.volatileNodes.get nodeHash with
  | some info =>
      if info.verified then context
      else
        { context.append (.promotion nodeHash) with
          volatileNodes := context.volatileNodes.modify nodeHash fun info =>
            { info with verified := true } }
  | none => context

def putRatchetKey (nodeHash : NodeHash) (chainKey : ChainKey) (epochId : Nat) :
    ConversationContext :=
  { context.append (.ratchetAdvance nodeHash chainKey epochId) with
    hotRatchets := context.hotRatchets.insert nodeHash (chainKey, epochId) }

def removeRatchetKey (nodeHash : NodeHash) : ConversationContext :=
  { context with hotRatchets := context.hotRatchets.erase nodeHash }

/-! ## Looking a node up -/

section Lookup

variable [IndexSearch]

/-- The record of a node in the first pack that has one. -/
def packed (nodeHash : NodeHash) : Option IndexRecord :=
  context.packs.findSome? fun pack => IndexSearch.lookup pack.index nodeHash

/-- What the journal's index says about a node, else what the packs say. -/
def look {α : Type} (context : ConversationContext) (nodeHash : NodeHash)
    (volatile : JournalNodeInfo → α) (record : IndexRecord → α) : Option α :=
  match context.volatileNodes.get nodeHash with
  | some info => some (volatile info)
  | none => (context.packed nodeHash).map record

def getNodeType (nodeHash : NodeHash) : Option NodeType :=
  context.look nodeHash JournalNodeInfo.nodeType IndexRecord.nodeType

def getRank (nodeHash : NodeHash) : Option Nat :=
  context.look nodeHash JournalNodeInfo.rank IndexRecord.rank

def getAdminDistance (nodeHash : NodeHash) : Option Nat :=
  context.look nodeHash JournalNodeInfo.adminDistance IndexRecord.adminDistance

def isVerified (nodeHash : NodeHash) : Bool :=
  (context.look nodeHash JournalNodeInfo.verified IndexRecord.verified).getD false

/-- The distance to the admin track of a node to be stored, in 16 bits. -/
def storedDistance (node : MerkleNode) : Nat :=
  if node.nodeType = .admin then 0
  else
    match (node.parents.filterMap context.getAdminDistance).min? with
    | none => u16Max
    | some distance => min (distance + 1) u16Max

variable [Primitives]

/-- The node at a position of the journal. -/
def readNodeAt (offset : Nat) : Option MerkleNode :=
  match context.files.journal.records[offset]? with
  | some (.node _ node) => some node
  | _ => none

/-- The node that the first pack has under its own hash. -/
def packedNode (nodeHash : NodeHash) : Option MerkleNode :=
  context.packs.findSome? fun pack =>
    (pack.getNodeData nodeHash).filter fun node => hash node = nodeHash

/-- A node is returned only under its own hash. -/
def getNode (nodeHash : NodeHash) : Option MerkleNode :=
  match context.volatileNodes.get nodeHash with
  | some info => (context.readNodeAt info.offset).filter fun node => hash node = nodeHash
  | none => context.packedNode nodeHash

/-! ## Writing a node -/

def nodeInfo (node : MerkleNode) (verified : Bool) (offset : Nat) : JournalNodeInfo :=
  ⟨node.nodeType, node.topologicalRank, context.storedDistance node, node.senderPk, node.seq,
    verified, offset⟩

/-- `put_node` up to its check of the threshold. -/
def recordNode (node : MerkleNode) (verified : Bool) : ConversationContext :=
  { context.append (.node verified node) with
    volatileNodes := context.volatileNodes.insert (hash node)
      (context.nodeInfo node verified context.files.journal.records.length)
    lastSeqNumbers := noteSequence context.lastSeqNumbers node.senderPk node.seq
    childIndex := InMemoryStore.noteChild (hash node) node.parents context.childIndex }

/-! ## Compaction -/

/-- What compaction learns about a sender: a key, a sequence number and an epoch. -/
abbrev RatchetUpdates := AssocMap PhysicalDevicePk (ChainKey × Nat × Nat)

def noteUpdate (volatileNodes : AssocMap NodeHash JournalNodeInfo) (updates : RatchetUpdates) :
    JournalRecord → RatchetUpdates
  | .node _ node =>
      let (key, seq, epoch) := (updates.get node.senderPk).getD (noKey, 0, 0)
      updates.insert node.senderPk (key, max seq node.seq, epoch)
  | .ratchetAdvance nodeHash chainKey epochId =>
      match volatileNodes.get nodeHash with
      | some info => updates.insert info.senderPk (chainKey, info.sequenceNumber, epochId)
      | none => updates
  | .promotion _ => updates

def ratchetUpdates : RatchetUpdates :=
  context.files.journal.records.foldl (noteUpdate context.volatileNodes) .empty

/-- Write an update to the slot of its sender, or to a new slot. -/
def updateSlot (slots : List RatchetSlot)
    (update : PhysicalDevicePk × ChainKey × Nat × Nat) : List RatchetSlot :=
  let (devicePk, key, seq, epoch) := update
  if slots.any fun slot => slot.devicePk = devicePk then
    slots.map fun slot =>
      if slot.devicePk = devicePk ∧ slot.lastSequenceNumber < seq then
        if key = noKey then { slot with lastSequenceNumber := seq }
        else ⟨devicePk, key, seq, epoch⟩
      else slot
  else slots ++ [⟨devicePk, key, seq, epoch⟩]

/-- The nodes of the journal with the statuses they were written with. -/
def nodesToPack : List (Bool × MerkleNode) :=
  context.files.journal.records.filterMap fun
    | .node verified node => some (verified, node)
    | _ => none

/-- The hashes of the nodes of the journal, record by record. -/
def journalHashes : List NodeHash :=
  context.nodesToPack.map fun entry : Bool × MerkleNode => hash entry.2

def indexRecord (offset : Nat) (entry : Bool × MerkleNode) : IndexRecord :=
  ⟨hash entry.2, offset, entry.2.topologicalRank, entry.2.nodeType, entry.1,
    ((context.volatileNodes.get (hash entry.2)).map JournalNodeInfo.adminDistance).getD 0⟩

def newPack : Pack :=
  ⟨context.nodesToPack.mapIdx context.indexRecord, context.nodesToPack⟩

/-- `compact_internal`: the nodes of the journal become a pack, the journal starts over
under the id of the pack, and what it held of the ratchets goes to their slots. -/
def compactInternal (packId : Nat) : ConversationContext :=
  if context.nodesToPack.isEmpty then context
  else
    let pack := context.newPack
    let updates := context.ratchetUpdates
    let state := { context.state with
      activePacks := context.state.activePacks ++ [packId]
      activeJournalId := packId }
    { files := { context.files with
        state := some state
        journal := ⟨packId, []⟩
        ratchet := updates.entries.foldl updateSlot context.files.ratchet
        packs := context.files.packs.insert packId pack }
      state := state
      packs := context.packs ++ [pack]
      volatileNodes := .empty
      hotRatchets := .empty
      lastSeqNumbers := updates.entries.foldl
        (fun seqNumbers update => noteSequence seqNumbers update.1 update.2.2.1)
        context.lastSeqNumbers
      childIndex := context.childIndex }

/-! ## Opening a conversation -/

/-- Replay a record of the journal. -/
def replayRecord (context : ConversationContext) (entry : JournalRecord × Nat) :
    ConversationContext :=
  match entry.1 with
  | .node verified node =>
      { context with
        volatileNodes := context.volatileNodes.insert (hash node)
          (context.nodeInfo node verified entry.2)
        lastSeqNumbers := noteSequence context.lastSeqNumbers node.senderPk node.seq
        childIndex := InMemoryStore.noteChild (hash node) node.parents context.childIndex }
  | .promotion nodeHash =>
      { context with
        volatileNodes := context.volatileNodes.modify nodeHash fun info =>
          { info with verified := true } }
  | .ratchetAdvance nodeHash chainKey epochId =>
      { context with hotRatchets := context.hotRatchets.insert nodeHash (chainKey, epochId) }

/-- Replay records in their order. -/
def replayAll (records : List JournalRecord) : ConversationContext :=
  records.zipIdx.foldl replayRecord context

/-- A conversation before its journal is replayed: the packs are open and the slots give
the last sequence numbers. -/
def unreplayed (files : ConversationFiles) (state : ConvState) (packs : List Pack) :
    ConversationContext where
  files := files
  state := state
  packs := packs
  volatileNodes := .empty
  hotRatchets := .empty
  lastSeqNumbers := files.ratchet.foldl
    (fun seqNumbers slot => seqNumbers.insert slot.devicePk slot.lastSequenceNumber) .empty
  childIndex := .empty

/-- `ensure_conversation`: a journal of another generation than the state names is
emptied, the packs that the state names are opened and the journal is replayed. It fails
when a pack is missing. -/
def load (files : ConversationFiles) : Option ConversationContext :=
  let state := files.state.getD .initial
  let journal :=
    if state.activeJournalId ≠ 0 ∧ files.journal.generationId ≠ state.activeJournalId then
      ⟨state.activeJournalId, []⟩
    else files.journal
  (state.activePacks.mapM files.packs.get).map fun packs =>
    (unreplayed { files with journal := journal } state packs).replayAll journal.records

/-- The hashes that opening the conversation adds to the store's index of hashes. -/
def loadedHashes : List NodeHash :=
  context.journalHashes ++ context.packedHashes

end Lookup

end ConversationContext

end MerkleTox.Fs
