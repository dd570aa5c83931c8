import MerkleTox.Core.Reference
import MerkleTox.Core.Restart
import MerkleTox.Library.Reachability

/-! # The cache of admin ancestors

A search for the admin ancestors of a node takes the answers for ancestors that were
searched before from a cache. It finds what a search without the cache finds as long as
these answers are up to date: no ancestor that was missing when the answer was found has
arrived since.
-/

namespace MerkleTox.Core

open Library Proto Relation

variable {node : MerkleNode} {engine : Engine}

namespace Overlay

variable (overlay : Overlay)

def parentsOf (nodeHash : NodeHash) : Option (List NodeHash) :=
  (overlay.getNode nodeHash).map MerkleNode.parents

def IsAdmin (nodeHash : NodeHash) : Prop :=
  ∃ node, overlay.getNode nodeHash = some node ∧ node.nodeType = .admin

/-- Present ancestors of a node with the given parents. -/
abbrev Ancestor (parents : List NodeHash) : NodeHash → Prop :=
  Reaches overlay.parentsOf parents

/-- The admin ancestors of a node that are present, from a search without the cache. -/
def adminAncestors (node : MerkleNode) : List NodeHash :=
  (Engine.collectAdminAncestors overlay (Engine.ancestorBound overlay node.parents + 1)
    node.parents.reverse [] [] (.new 0)).1

/-- The parents of the present nodes that a search has not visited. -/
def unvisited (visited : List NodeHash) : Nat :=
  (overlay.cache.nodes.total fun nodeHash node =>
      if visited.contains nodeHash then 0 else node.parents.length) +
    overlay.store.nodes.total fun nodeHash stored =>
      if visited.contains nodeHash then 0 else stored.node.parents.length

variable {overlay}
variable {nodeHash : NodeHash}

theorem parentsOf_of_getNode (hget : overlay.getNode nodeHash = some node) :
    overlay.parentsOf nodeHash = some node.parents := by
  rw [parentsOf, hget]
  rfl

theorem unvisited_eq (overlay : Overlay) (nodeHash : NodeHash) (visited : List NodeHash) :
    overlay.unvisited visited = overlay.unvisited (nodeHash :: visited) +
      (overlay.cache.nodes.weightAt (fun other node =>
          if visited.contains other then 0 else node.parents.length) nodeHash +
        overlay.store.nodes.weightAt (fun other stored =>
          if visited.contains other then 0 else stored.node.parents.length) nodeHash) := by
  have hweight : ∀ (other : NodeHash) (count : Nat),
      (if (nodeHash :: visited).contains other then 0 else count) =
        if other = nodeHash then 0 else if visited.contains other then 0 else count := by
    intro other count
    by_cases heq : other = nodeHash
    · simp [heq]
    · simp [heq]
  have hcached := AssocMap.total_except overlay.cache.nodes
    (fun other (node : MerkleNode) => if visited.contains other then 0 else node.parents.length)
    nodeHash
  have hstored := AssocMap.total_except overlay.store.nodes
    (fun other (stored : StoredNode) =>
      if visited.contains other then 0 else stored.node.parents.length) nodeHash
  unfold unvisited
  simp only [hweight]
  omega

/-- Visiting a node that is present uses up its parents. -/
theorem unvisited_cons {visited : List NodeHash} (hget : overlay.getNode nodeHash = some node)
    (hnew : visited.contains nodeHash = false) :
    node.parents.length + overlay.unvisited (nodeHash :: visited) ≤ overlay.unvisited visited := by
  rw [overlay.unvisited_eq nodeHash visited]
  -- the node is in the cache or, if it is not, in the store
  cases hmem : overlay.cache.nodes.get nodeHash with
  | some cached =>
      rw [getNode, hmem] at hget
      cases hget
      rw [AssocMap.weightAt_of_get _ hmem, hnew]
      simp only [Bool.false_eq_true, if_false]
      omega
  | none =>
      rw [getNode, hmem, Option.none_or, InMemoryStore.getNode, Option.map_eq_some_iff] at hget
      obtain ⟨stored, hmem', rfl⟩ := hget
      rw [AssocMap.weightAt_of_get _ hmem', hnew]
      simp only [Bool.false_eq_true, if_false]
      omega

end Overlay

theorem mem_foldl_insertOnce {α : Type} [DecidableEq α] {set elements : List α} {other : α} :
    other ∈ elements.foldl insertOnce set ↔ other ∈ set ∨ other ∈ elements := by
  induction elements generalizing set with
  | nil => simp
  | cons element rest ih => rw [List.foldl_cons, ih, mem_insertOnce, List.mem_cons, or_assoc]

namespace Engine

/-- A cached answer is the one that a search would find now, if it is reached. -/
def UpToDate (overlay : Overlay) (starts : List NodeHash)
    (entry : NodeHash × List NodeHash) : Prop :=
  overlay.Ancestor starts entry.1 → ∀ node, overlay.getNode entry.1 = some node →
    ∀ other, other ∈ entry.2 ↔ overlay.Ancestor node.parents other ∧ overlay.IsAdmin other

variable {cache : LruCache NodeHash (List NodeHash)} {stack visited found : List NodeHash}

/-- A search that meets answers that are up to date finds the admin ancestors, and the
cache gets no other answers. -/
theorem collectAdminAncestors_complete {overlay : Overlay} {starts : List NodeHash} (fuel : Nat)
    (hsearching : Searching overlay.parentsOf overlay.IsAdmin starts stack visited found)
    (hfuel : stack.length + overlay.unvisited visited ≤ fuel)
    (hcache : ∀ entry ∈ cache.entries, UpToDate overlay starts entry) :
    ∀ other, other ∈ (collectAdminAncestors overlay fuel stack visited found cache).1 ↔
      overlay.Ancestor starts other ∧ overlay.IsAdmin other := by
  -- By induction on the fuel, which covers the stack and the unvisited nodes: a visited or absent
  -- parent leaves the stack, a new one leaves the unvisited.
  induction fuel generalizing stack visited found cache with
  | zero =>
      have hempty : stack = [] := List.length_eq_zero_iff.mp (by omega)
      subst hempty
      exact fun other => hsearching.complete
  | succ fuel ih =>
      cases stack with
      | nil => exact fun other => hsearching.complete
      | cons parent stack =>
          rw [List.length_cons] at hfuel
          unfold collectAdminAncestors
          split
          next hvisited =>
            exact ih (hsearching.skip (List.contains_iff_mem.mp hvisited)) (by omega) hcache
          next hnew =>
            rw [Bool.not_eq_true] at hnew
            split
            next habsent =>
              have hnone : overlay.parentsOf parent = none := by
                rw [Overlay.parentsOf, habsent]
                rfl
              have hunvisited := overlay.unvisited_eq parent visited
              exact ih (hsearching.absent hnone) (by omega) hcache
            next node hget =>
              have hparents := Overlay.parentsOf_of_getNode hget
              have hunvisited := Overlay.unvisited_cons hget hnew
              have hreached := hsearching.stacked parent List.mem_cons_self (hparents ▸ rfl)
              have hadmin : overlay.IsAdmin parent ↔ node.nodeType = .admin :=
                ⟨fun ⟨_, hget', htype⟩ => Option.some.inj (hget.symm.trans hget') ▸ htype,
                  fun htype => ⟨node, hget, htype⟩⟩
              have hfound : ∀ other, other ∈ (if node.nodeType = .admin then
                  insertOnce found parent else found) ↔
                  other ∈ found ∨ (other = parent ∧ overlay.IsAdmin parent) := by
                intro other
                rw [hadmin]
                split
                next htype => simp [mem_insertOnce, htype]
                next htype => simp [htype]
              dsimp only
              have hpeek := cache.get_fst parent
              have hkept : ∀ entry ∈ (cache.get parent).2.entries,
                  UpToDate overlay starts entry :=
                fun entry hmem => hcache entry (LruCache.mem_get hmem)
              split
              -- The cache answers for everything above the parent, so its own parents are not
              -- pushed.
              next known cache' heq =>
                rw [heq] at hpeek hkept
                have hknown := hcache _ (LruCache.mem_of_peek hpeek.symm) hreached node hget
                refine ih (hsearching.answer hparents hknown fun other => ?_) (by omega) hkept
                rw [mem_foldl_insertOnce, hfound, or_assoc]
              next cache' heq =>
                rw [heq] at hkept
                refine ih (hsearching.enter hparents hfound) ?_ hkept
                rw [List.length_append, List.length_reverse]
                omega

theorem mem_collectAdminAncestors_cache {overlay : Overlay} (fuel : Nat)
    {entry : NodeHash × List NodeHash}
    (hmem : entry ∈ (collectAdminAncestors overlay fuel stack visited found cache).2.entries) :
    entry ∈ cache.entries := by
  induction fuel generalizing stack visited found cache with
  | zero => exact hmem
  | succ fuel ih =>
      cases stack with
      | nil => exact hmem
      | cons parent stack =>
          unfold collectAdminAncestors at hmem
          split at hmem
          next => exact ih hmem
          next =>
            split at hmem
            next => exact ih hmem
            next node hget =>
              dsimp only at hmem
              have hkept : ∀ entry ∈ (cache.get parent).2.entries, entry ∈ cache.entries :=
                fun entry => LruCache.mem_get
              split at hmem
              next known cache' heq =>
                rw [heq] at hkept
                exact hkept entry (ih hmem)
              next cache' heq =>
                rw [heq] at hkept
                exact hkept entry (ih hmem)

theorem ancestors_fuel (overlay : Overlay) (parents : List NodeHash) :
    parents.reverse.length + overlay.unvisited [] ≤ ancestorBound overlay parents + 1 := by
  have hcached : overlay.cache.nodes.values.map (fun node => node.parents.length) =
      overlay.cache.nodes.entries.map fun entry => entry.2.parents.length := List.map_map
  have hstored : overlay.store.nodes.values.map (fun stored => stored.node.parents.length) =
      overlay.store.nodes.entries.map fun entry => entry.2.node.parents.length := List.map_map
  rw [List.length_reverse, ancestorBound, hcached, hstored]
  simp only [Overlay.unvisited, AssocMap.total, List.contains_nil, Bool.false_eq_true, if_false]
  omega

end Engine

/-- Without a cache the search finds the admin ancestors that are present. -/
theorem Overlay.mem_adminAncestors {overlay : Overlay} {other : NodeHash} :
    other ∈ overlay.adminAncestors node ↔
      overlay.Ancestor node.parents other ∧ overlay.IsAdmin other :=
  Engine.collectAdminAncestors_complete _ (Searching.begin node.parents)
    (Engine.ancestors_fuel overlay node.parents) (fun _ hmem => absurd hmem List.not_mem_nil) other

/-- The present nodes under their hashes. -/
def Overlay.entries (overlay : Overlay) : List (NodeHash × MerkleNode) :=
  overlay.cache.nodes.entries ++
    overlay.store.nodes.entries.map fun entry => (entry.1, entry.2.node)

theorem Overlay.mem_entries {overlay : Overlay} {nodeHash : NodeHash}
    (hget : overlay.getNode nodeHash = some node) : (nodeHash, node) ∈ overlay.entries := by
  rw [Overlay.entries, List.mem_append, List.mem_map]
  cases hmem : overlay.cache.nodes.get nodeHash with
  | some cached =>
      rw [Overlay.getNode, hmem] at hget
      cases hget
      exact .inl (AssocMap.get_eq_some_iff.mp hmem)
  | none =>
      rw [Overlay.getNode, hmem, Option.none_or, InMemoryStore.getNode,
        Option.map_eq_some_iff] at hget
      obtain ⟨stored, hmem', rfl⟩ := hget
      exact .inr ⟨(nodeHash, stored), AssocMap.get_eq_some_iff.mp hmem', rfl⟩

/-! ## Searches in order -/

section Searches

variable [Primitives]

/-- The last search for the ancestors of the node with a hash. -/
def lastSearch (searches : List Search) (nodeHash : NodeHash) : Option Search :=
  searches.find? fun search => hash search.node = nodeHash

/-- Every present ancestor that was searched before still has the admin ancestors that
were present then. -/
def Search.Current (search : Search) (earlier : List Search) : Prop :=
  ∀ nodeHash node last, search.overlay.Ancestor search.node.parents nodeHash →
    search.overlay.getNode nodeHash = some node → lastSearch earlier nodeHash = some last →
    ∀ other, other ∈ last.overlay.adminAncestors last.node ↔
      other ∈ search.overlay.adminAncestors node

def AllCurrent (searches : List Search) : Prop :=
  ∀ search earlier, search :: earlier <:+ searches → search.Current earlier

theorem AllCurrent.cons_iff {search : Search} {earlier : List Search} :
    AllCurrent (search :: earlier) ↔ search.Current earlier ∧ AllCurrent earlier := by
  constructor
  · intro hall
    exact ⟨hall search earlier (List.suffix_refl _),
      fun _ _ hsuffix => hall _ _ (hsuffix.trans (List.suffix_cons _ _))⟩
  · rintro ⟨hcurrent, hall⟩ search' earlier' hsuffix
    rcases List.suffix_cons_iff.mp hsuffix with heq | hsuffix
    · cases heq
      exact hcurrent
    · exact hall search' earlier' hsuffix

/-- The search found what a search without the cache finds. -/
def Search.Exact (search : Search) : Prop :=
  ∀ other, other ∈ search.ancestors ↔ other ∈ search.overlay.adminAncestors search.node

/-- The cache holds for a node what its last search found. -/
def Remembers (cache : LruCache NodeHash (List NodeHash)) (searches : List Search) : Prop :=
  ∀ entry ∈ cache.entries, ∃ search, lastSearch searches entry.1 = some search ∧
    entry.2 = search.ancestors

theorem Remembers.search (h : Remembers engine.adminAncestorsCache engine.searches)
    (overlay : Overlay) (node : MerkleNode) :
    Remembers (engine.searchAncestors overlay node).2.adminAncestorsCache
      (engine.searchAncestors overlay node).2.searches := by
  intro entry hmem
  unfold lastSearch Engine.searchAncestors
  rcases LruCache.mem_put hmem with rfl | ⟨hold, hne⟩
  · exact ⟨_, List.find?_cons_of_pos (decide_eq_true rfl), rfl⟩
  · obtain ⟨search, hlast, hfound⟩ := h entry (Engine.mem_collectAdminAncestors_cache _ hold)
    refine ⟨search, ?_, hfound⟩
    rw [List.find?_cons_of_neg (by simpa using Ne.symm hne)]
    exact hlast

/-- A search is exact if those before it were and their answers are up to date. -/
theorem Search.Current.exact {overlay : Overlay} (hcurrent : Search.Current ⟨overlay, node,
      (engine.searchAncestors overlay node).1.adminAncestorHashes⟩ engine.searches)
    (hremembers : Remembers engine.adminAncestorsCache engine.searches)
    (hexact : ∀ search ∈ engine.searches, search.Exact) :
    Search.Exact ⟨overlay, node,
      (engine.searchAncestors overlay node).1.adminAncestorHashes⟩ := by
  have hcache : ∀ entry ∈ engine.adminAncestorsCache.entries,
      Engine.UpToDate overlay node.parents entry := by
    intro entry hmem hreached known hget other
    obtain ⟨search, hlast, hfound⟩ := hremembers entry hmem
    have hmember := List.mem_of_find?_eq_some hlast
    rw [hfound, hexact search hmember other,
      hcurrent entry.1 known search hreached hget hlast other, Overlay.mem_adminAncestors]
  intro other
  rw [Overlay.mem_adminAncestors]
  exact Engine.collectAdminAncestors_complete _ (Searching.begin node.parents)
    (Engine.ancestors_fuel overlay node.parents) hcache other

/-- The searches of an engine that has searched before. -/
theorem SearchRun.exact {before after : LruCache NodeHash (List NodeHash) × List Search}
    (hrun : SearchRun before after) (hremembers : Remembers before.1 before.2)
    (hexact : AllCurrent before.2 → ∀ search ∈ before.2, search.Exact) :
    Remembers after.1 after.2 ∧ (AllCurrent after.2 → ∀ search ∈ after.2, search.Exact) := by
  induction hrun with
  | refl => exact ⟨hremembers, hexact⟩
  | tail _ hstep ih =>
      obtain ⟨hremembers, hexact⟩ := ih
      cases hstep with
      | search engine overlay node =>
          refine ⟨hremembers.search overlay node, ?_⟩
          intro hallCurrent search hmem
          obtain ⟨hcurrent, hall⟩ := AllCurrent.cons_iff.mp hallCurrent
          have hearlier := hexact hall
          rcases List.mem_cons.mp hmem with rfl | hold
          · exact hcurrent.exact hremembers hearlier
          · exact hearlier search hold

/-- Over a lifetime of an engine, searches whose cached answers are up to date find
exactly the admin ancestors that are present. -/
theorem lifetime_ancestors_exact [WireCodec] (selfPk : PhysicalDevicePk)
    (selfLogicalPk : LogicalIdentityPk) (selfSk : Option SigningKey)
    (selfDhSk : Option EphemeralX25519Sk) (rng : Rng) (store : InMemoryStore)
    (commands : List LifetimeCommand)
    (hcurrent : AllCurrent (World.lifetime
      ⟨.new selfPk selfLogicalPk selfSk selfDhSk rng, store, [], []⟩ commands).engine.searches) :
    ∀ search ∈ (World.lifetime
      ⟨.new selfPk selfLogicalPk selfSk selfDhSk rng, store, [], []⟩ commands).engine.searches,
      search.Exact := by
  have hrun := World.lifetime_searched
    ⟨.new selfPk selfLogicalPk selfSk selfDhSk rng, store, [], []⟩ commands
  refine (hrun.exact ?_ ?_).2 hcurrent
  · exact fun _ hmem => absurd hmem List.not_mem_nil
  · exact fun _ _ hmem => absurd hmem List.not_mem_nil

/-- Searches are up to date if no node's admin ancestors change after its search. -/
theorem AllCurrent.of_unchanged {searches : List Search}
    (hunchanged : searches.Pairwise fun later earlier =>
      ∀ entry ∈ later.overlay.entries, hash earlier.node = entry.1 →
        earlier.overlay.adminAncestors earlier.node =
          later.overlay.adminAncestors entry.2) :
    AllCurrent searches := by
  intro search earlier hsuffix nodeHash node last _ hget hlast other
  have hhash : hash last.node = nodeHash := by simpa using List.find?_some hlast
  have hsame := List.rel_of_pairwise_cons (hunchanged.sublist hsuffix.sublist)
    (List.mem_of_find?_eq_some hlast)
  rw [hsame _ (Overlay.mem_entries hget) hhash]

end Searches

namespace Ancestry

/-! ## An authorization that arrives after a child of it -/

open Reference

/-- An observer with keys of its own. -/
def start : World := ⟨.new ⟨5⟩ ⟨5⟩ none none ⟨1, 0⟩, .new, [], []⟩

/-- The founder authorizes a device. -/
def authorization : MerkleNode :=
  sign
    { parents := [hash genesis]
      authorPk := ⟨1⟩
      senderPk := ⟨1⟩
      sequenceNumber := 2
      topologicalRank := 1
      networkTimestamp := 1000
      content := .control (.authorizeDevice (certificate ⟨50⟩))
      metadata := []
      authentication := .ephemeralSignature ⟨0⟩
      powNonce := 0 }

/-- A text whose sender is not known to the observer. -/
def text (devicePk : PhysicalDevicePk) (parent : MerkleNode) : MerkleNode :=
  { parents := [hash parent]
    authorPk := ⟨1⟩
    senderPk := devicePk
    sequenceNumber := 1
    topologicalRank := parent.topologicalRank + 1
    networkTimestamp := 1000
    content := .text "hello"
    metadata := []
    authentication := .ephemeralSignature ⟨0⟩
    powNonce := 0 }

def remark : MerkleNode := text ⟨60⟩ authorization

def reply : MerkleNode := text ⟨61⟩ remark

def arrival (nodes : List MerkleNode) : List LifetimeCommand :=
  nodes.map fun node => .call (.handleNode room node 1000 1)

/-- In order every search is exact. -/
theorem lifetime_ancestors_exact_in_order :
    AllCurrent
        (start.lifetime (arrival [genesis, authorization, remark, reply])).engine.searches ∧
      ∀ search ∈
        (start.lifetime (arrival [genesis, authorization, remark, reply])).engine.searches,
        search.Exact := by
  have hunchanged :
      (start.lifetime (arrival [genesis, authorization, remark, reply])).engine.searches.Pairwise
        fun later earlier => ∀ entry ∈ later.overlay.entries, hash earlier.node = entry.1 →
          earlier.overlay.adminAncestors earlier.node =
            later.overlay.adminAncestors entry.2 := by
    decide +kernel
  have hcurrent := AllCurrent.of_unchanged hunchanged
  unfold start at hcurrent ⊢
  exact ⟨hcurrent, lifetime_ancestors_exact ⟨5⟩ ⟨5⟩ none none ⟨1, 0⟩ .new
    (arrival [genesis, authorization, remark, reply]) hcurrent⟩

/-- The answer for the remark, found before the authorization arrived, hides the
authorization from the reply. -/
theorem ancestors_hidden :
    ∃ search ∈ (start.lifetime (arrival [genesis, remark, authorization, reply])).engine.searches,
      search.node = reply ∧ ¬ search.Exact := by
  have hfacts : ∃ search ∈
      (start.lifetime (arrival [genesis, remark, authorization, reply])).engine.searches,
      search.node = reply ∧ hash authorization ∈ search.overlay.adminAncestors search.node ∧
        hash authorization ∉ search.ancestors := by decide +kernel
  obtain ⟨search, hmem, hnode, hpresent, hhidden⟩ := hfacts
  exact ⟨search, hmem, hnode, fun hexact => hhidden ((hexact _).mpr hpresent)⟩

end Ancestry

end MerkleTox.Core
