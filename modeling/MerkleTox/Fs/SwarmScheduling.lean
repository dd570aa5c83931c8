import MerkleTox.Fs.Swarm
import MerkleTox.Library.Run

/-! # The chunks that the peers of a swarm are asked for

Seeders come and go, chunks are asked for, arrive, fail to verify or stall, in any order. In
every state that is reached no peer has more than four fetches, and asking for chunks asks for
missing ones only. The search goes on behind the chunk it found last, so that a chunk that can
be asked for is not passed over.
-/

namespace MerkleTox.Fs

open Library Proto MerkleTox.Core

inductive SwarmCommand
  | addSeeder (peer : PhysicalDevicePk)
  | removeSeeder (peer : PhysicalDevicePk)
  | nextRequests (maxTotalRequests now : Nat)
  | clearStalledFetches (now : Nat)
  | chunkReceived (chunk : BlobData)

def SwarmSync.step [BaoSlices] (sync : SwarmSync) : SwarmCommand → SwarmSync
  | .addSeeder peer => sync.addSeeder peer
  | .removeSeeder peer => sync.removeSeeder peer
  | .nextRequests maxTotalRequests now => (sync.nextRequests maxTotalRequests now).2
  | .clearStalledFetches now => sync.clearStalledFetches now
  | .chunkReceived chunk => (sync.onChunkReceived chunk).2

/-! ## The search for missing chunks -/

namespace ChunkTracker

variable {tracker : ChunkTracker} {hint index target : Nat}

theorem nextMissing_eq_some (hhint : hint ≤ tracker.numChunks)
    (h : tracker.nextMissing hint = some index) :
    index < tracker.numChunks ∧ tracker.isReceived index = false := by
  unfold nextMissing at h
  rcases Option.or_eq_some_iff.mp h with hfound | ⟨-, hfound⟩
  · have hmem := List.mem_of_find?_eq_some hfound
    have hmissing := List.find?_some hfound
    rw [List.mem_range'_1] at hmem
    exact ⟨by omega, by simpa using hmissing⟩
  · have hmem := List.mem_of_find?_eq_some hfound
    have hmissing := List.find?_some hfound
    rw [List.mem_range] at hmem
    exact ⟨by omega, by simpa using hmissing⟩

/-- A missing chunk from the hint on is not passed over. -/
theorem exists_nextMissing (hle : hint ≤ target) (htarget : target < tracker.numChunks)
    (hmissing : tracker.isReceived target = false) :
    ∃ index, tracker.nextMissing hint = some index ∧ hint ≤ index ∧ index ≤ target := by
  have hmem : target ∈ List.range' hint (tracker.numChunks - hint) := by
    rw [List.mem_range'_1]
    omega
  have hsome : ((List.range' hint (tracker.numChunks - hint)).find?
      fun index => !tracker.isReceived index).isSome := by
    rw [List.find?_isSome]
    exact ⟨target, hmem, by simpa using hmissing⟩
  obtain ⟨index, hindex⟩ := Option.isSome_iff_exists.mp hsome
  have hfound := List.mem_of_find?_eq_some hindex
  rw [List.mem_range'_1] at hfound
  refine ⟨index, by rw [nextMissing, hindex, Option.some_or], hfound.1, ?_⟩
  by_contra hbehind
  obtain ⟨before, after, heq, hbefore⟩ := (List.find?_eq_some_iff_append.mp hindex).2
  -- the range is sorted, so that the target would have been found first
  have hsorted := @List.pairwise_lt_range' hint (tracker.numChunks - hint) 1 Nat.one_pos
  rw [heq] at hmem hsorted
  rcases List.mem_append.mp hmem with hfirst | hlater
  · have := hbefore target hfirst
    rw [hmissing] at this
    cases this
  · rcases List.mem_cons.mp hlater with rfl | hrest
    · exact hbehind le_rfl
    · have hlt := (List.pairwise_cons.mp (List.pairwise_append.mp hsorted).2.1).1 target hrest
      exact hbehind hlt.le

end ChunkTracker

namespace SwarmSync

variable {sync : SwarmSync} {peer seeder : PhysicalDevicePk} {index now : Nat}

/-! ## The seeder of a chunk -/

/-- A fold that keeps its choice or takes the next element. -/
theorem foldl_choice {α : Type} {f : Option α → α → Option α}
    (hf : ∀ best next, f best next = some next ∨ best.isSome ∧ f best next = best)
    (candidates : List α) (best : Option α) :
    (candidates.foldl f best = best ∨
        ∃ chosen ∈ candidates, candidates.foldl f best = some chosen) ∧
      (best.isSome ∨ candidates ≠ [] → (candidates.foldl f best).isSome) := by
  induction candidates generalizing best with
  | nil => exact ⟨.inl rfl, fun h => h.resolve_right fun hne => hne rfl⟩
  | cons next rest ih =>
      obtain ⟨hchosen, hsome⟩ := ih (f best next)
      rw [List.foldl_cons]
      rcases hf best next with htaken | ⟨hbest, hkept⟩
      · rw [htaken] at hchosen hsome ⊢
        refine ⟨.inr ?_, fun _ => hsome (.inl rfl)⟩
        rcases hchosen with hsame | ⟨chosen, hmem, hchosen⟩
        · exact ⟨next, List.mem_cons_self, hsame⟩
        · exact ⟨chosen, List.mem_cons_of_mem _ hmem, hchosen⟩
      · rw [hkept] at hchosen hsome ⊢
        refine ⟨?_, fun _ => hsome (.inl hbest)⟩
        rcases hchosen with hsame | ⟨chosen, hmem, hchosen⟩
        · exact .inl hsame
        · exact .inr ⟨chosen, List.mem_cons_of_mem _ hmem, hchosen⟩

/-- The seeder that is picked has fewer than four fetches, and one is picked if there is one. -/
theorem pickSeeder_spec (sync : SwarmSync) :
    (∀ seeder, sync.pickSeeder = some seeder →
        seeder ∈ sync.seeders ∧ sync.inFlight seeder < 4) ∧
      ∀ peer ∈ sync.seeders, sync.inFlight peer < 4 → sync.pickSeeder.isSome := by
  obtain ⟨f, hpick, hf⟩ : ∃ f, sync.pickSeeder =
      (sync.seeders.filter fun peer => sync.inFlight peer < 4).foldl f none ∧
      ∀ best next, f best next = some next ∨ best.isSome ∧ f best next = best := by
    refine ⟨_, rfl, fun best next => ?_⟩
    cases best with
    | none => exact .inl rfl
    | some other =>
        dsimp only
        split
        · exact .inl rfl
        · exact .inr ⟨rfl, rfl⟩
  obtain ⟨hchosen, hsome⟩ := foldl_choice hf
    (sync.seeders.filter fun peer => sync.inFlight peer < 4) none
  rw [hpick]
  refine ⟨fun seeder hpicked => ?_, fun peer hmem hfree => hsome (.inr ?_)⟩
  · rcases hchosen with hnone | ⟨chosen, hmem, hchosen⟩
    · rw [hpicked] at hnone
      cases hnone
    · rw [hpicked, Option.some.injEq] at hchosen
      subst hchosen
      simpa using hmem
  · exact List.ne_nil_of_mem (List.mem_filter.mpr ⟨hmem, by simpa using hfree⟩)

/-! ## The fetches of a peer -/

/-- Dropping fetches takes none up. -/
theorem inFlight_retain_le (sync : SwarmSync) (keep : Nat → PhysicalDevicePk × Nat → Bool)
    (peer : PhysicalDevicePk) :
    { sync with activeFetches := sync.activeFetches.retain keep }.inFlight peer ≤
      sync.inFlight peer :=
  ((List.filter_sublist.map Prod.snd).filter _).length_le

/-- A new fetch counts for its seeder. -/
theorem inFlight_insert (habsent : sync.activeFetches.contains index = false)
    (peer : PhysicalDevicePk) :
    { sync with activeFetches := sync.activeFetches.insert index (seeder, now) }.inFlight peer =
      sync.inFlight peer + if seeder = peer then 1 else 0 := by
  have hentries : (sync.activeFetches.insert index (seeder, now)).entries =
      sync.activeFetches.entries ++ [(index, (seeder, now))] := by
    refine AssocMap.insert_of_not_mem _ fun hmem => ?_
    rw [← AssocMap.contains_iff_mem_keys, habsent] at hmem
    cases hmem
  simp only [inFlight, AssocMap.values, hentries, List.map_append, List.filter_append,
    List.length_append, List.map_cons, List.map_nil, Nat.add_left_cancel_iff]
  split
  next heq => simp [heq]
  next hne => simp [hne]

/-! ## One call -/

/-- The peer is a seeder and is asked for a chunk that is missing and not in flight; from then
on the chunk is in flight from that peer. -/
structure Requests (start after : SwarmSync) (now : Nat) (peer : PhysicalDevicePk)
    (req : BlobReq) (index : Nat) : Prop where
  req : req = ⟨start.info.hash, index * chunkSize, chunkSize⟩
  within : index < start.tracker.numChunks
  missing : start.tracker.isReceived index = false
  idle : start.activeFetches.get index = none
  fetched : after.activeFetches.get index = some (peer, now)
  seeder : peer ∈ start.seeders

/-- What the loop has asked for so far. -/
structure Assigning (start : SwarmSync) (maxTotalRequests now : Nat) (state : Requesting) :
    Prop where
  tracks : Tracks start state.sync
  seeders : state.sync.seeders = start.seeders
  hint : state.hint ≤ start.tracker.numChunks
  limited : state.reqs.length ≤ maxTotalRequests
  kept : ∀ index fetch, start.activeFetches.get index = some fetch →
    state.sync.activeFetches.get index = some fetch
  requested : ∀ peer req, (peer, req) ∈ state.reqs →
    ∃ index, Requests start state.sync now peer req index
  distinct : (state.reqs.map fun entry => entry.2.offset).Nodup
  bounded : ∀ peer, state.sync.inFlight peer ≤ 4

variable {maxTotalRequests : Nat} {state : Requesting}

theorem Assigning.start (hbounded : ∀ peer, sync.inFlight peer ≤ 4) :
    Assigning sync maxTotalRequests now ⟨0, sync, []⟩ where
  tracks := ⟨rfl, rfl⟩
  seeders := rfl
  hint := Nat.zero_le _
  limited := Nat.zero_le _
  kept _ _ hget := hget
  requested _ _ hmem := absurd hmem List.not_mem_nil
  distinct := List.nodup_nil
  bounded := hbounded

/-- Asking a seeder for the chunk that was found. -/
theorem Assigning.ask {start : SwarmSync} (h : Assigning start maxTotalRequests now state)
    (hroom : state.reqs.length < maxTotalRequests)
    (hnext : state.sync.tracker.nextMissing state.hint = some index) :
    Assigning start maxTotalRequests now
      ⟨index + 1, (SwarmSync.ask now index state.sync state.reqs).2,
        (SwarmSync.ask now index state.sync state.reqs).1⟩ := by
  rw [h.tracks.tracker] at hnext
  obtain ⟨hindex, hmissing⟩ := ChunkTracker.nextMissing_eq_some h.hint hnext
  unfold SwarmSync.ask
  split
  next => exact { h with hint := hindex }
  next hidle =>
    rw [Bool.not_eq_true] at hidle
    have hnone : state.sync.activeFetches.get index = none := by
      rwa [AssocMap.contains_eq, Option.isSome_eq_false_iff, Option.isNone_iff_eq_none] at hidle
    split
    next => exact { h with hint := hindex }
    next seeder hpicked =>
      obtain ⟨hseeder, hfree⟩ := state.sync.pickSeeder_spec.1 seeder hpicked
      rw [h.seeders] at hseeder
      -- what is in flight stays so
      have hstays : ∀ other fetch, state.sync.activeFetches.get other = some fetch →
          (state.sync.activeFetches.insert index (seeder, now)).get other = some fetch := by
        intro other fetch hget
        rw [AssocMap.get_insert_of_ne _ _ ?_, hget]
        rintro rfl
        rw [hnone] at hget
        cases hget
      refine
        { tracks := ⟨h.tracks.info, h.tracks.tracker⟩
          seeders := h.seeders
          hint := hindex
          limited := ?_
          kept := fun other fetch hget => hstays other fetch (h.kept other fetch hget)
          requested := ?_
          distinct := ?_
          bounded := ?_ }
      · rw [List.length_append]
        exact hroom
      · intro peer req hmem
        rcases List.mem_append.mp hmem with hearlier | hlast
        · obtain ⟨other, hreq⟩ := h.requested peer req hearlier
          exact ⟨other, { hreq with fetched := hstays other _ hreq.fetched }⟩
        · cases List.mem_singleton.mp hlast
          refine ⟨index, ?_, hindex, hmissing, ?_, AssocMap.get_insert_self _ _ _, hseeder⟩
          · rw [h.tracks.info]
          · rw [Option.eq_none_iff_forall_ne_some]
            intro fetch hget
            rw [h.kept index fetch hget] at hnone
            cases hnone
      -- Two requests of one offset would be of one chunk, and its fetch was not active.
      · rw [List.map_append, List.nodup_append]
        refine ⟨h.distinct, List.nodup_singleton _, fun offset hoffset other hother => ?_⟩
        obtain ⟨⟨peer, req⟩, hmem, rfl⟩ := List.mem_map.mp hoffset
        obtain ⟨chunk, hreq⟩ := h.requested peer req hmem
        rw [List.mem_singleton.mp hother]
        dsimp only
        rw [hreq.req]
        intro heq
        obtain rfl : chunk = index := Nat.eq_of_mul_eq_mul_right (by decide) heq
        rw [hreq.fetched] at hnone
        cases hnone
      · intro peer
        rw [inFlight_insert hidle]
        split
        next heq => exact heq ▸ hfree
        next => exact h.bounded peer

theorem Assigning.requestLoop {start : SwarmSync} (rounds : Nat)
    (h : Assigning start maxTotalRequests now state) :
    Assigning start maxTotalRequests now
      (requestLoop maxTotalRequests now rounds state) := by
  induction rounds generalizing state with
  | zero => exact h
  | succ rounds ih =>
      rw [SwarmSync.requestLoop]
      split
      next => exact h
      next next hround =>
        have hroom : state.reqs.length < maxTotalRequests := by
          by_contra hfull
          rw [requestRound, if_pos (Nat.not_lt.mp hfull)] at hround
          cases hround
        obtain ⟨index, hnext, rfl⟩ := requestRound_eq_some hround
        exact ih (h.ask hroom hnext)

theorem ask_reqs_ne_nil {reqs : List (PhysicalDevicePk × BlobReq)} (hreqs : reqs ≠ []) :
    (ask now index sync reqs).1 ≠ [] := by
  unfold ask
  split
  · exact hreqs
  · split
    · exact hreqs
    · simp

/-- Requests are not withdrawn. -/
theorem requestLoop_reqs_ne_nil (rounds : Nat) (hreqs : state.reqs ≠ []) :
    (requestLoop maxTotalRequests now rounds state).reqs ≠ [] := by
  induction rounds generalizing state with
  | zero => exact hreqs
  | succ rounds ih =>
      rw [requestLoop]
      split
      next => exact hreqs
      next next hround =>
        obtain ⟨index, -, rfl⟩ := requestRound_eq_some hround
        exact ih (ask_reqs_ne_nil hreqs)

/-- The loop comes to every missing chunk behind its hint, unless it asks for another before. -/
theorem requestLoop_progress {maxTotalRequests target rounds : Nat} (hmax : 0 < maxTotalRequests)
    (hle : state.hint ≤ target) (hrounds : target < state.hint + rounds)
    (htarget : target < state.sync.tracker.numChunks)
    (hmissing : state.sync.tracker.isReceived target = false)
    (hidle : state.sync.activeFetches.contains target = false)
    (hseeder : state.sync.pickSeeder.isSome) :
    (requestLoop maxTotalRequests now rounds state).reqs ≠ [] := by
  induction rounds generalizing state with
  | zero => omega
  | succ rounds ih =>
      by_cases hreqs : state.reqs = []
      · obtain ⟨index, hnext, hlow, hhigh⟩ :=
          ChunkTracker.exists_nextMissing hle htarget hmissing
        have hround : requestRound maxTotalRequests now state =
            some ⟨index + 1, (ask now index state.sync state.reqs).2,
              (ask now index state.sync state.reqs).1⟩ := by
          rw [requestRound, hreqs, List.length_nil, if_neg (Nat.not_le.mpr hmax), hnext]
          rfl
        rw [requestLoop, hround]
        dsimp only
        obtain ⟨seeder, hpicked⟩ := Option.isSome_iff_exists.mp hseeder
        by_cases hflight : state.sync.activeFetches.contains index = true
        · have hskipped : ask now index state.sync state.reqs = (state.reqs, state.sync) :=
            if_pos hflight
          have hne : index ≠ target := by
            rintro rfl
            rw [hidle] at hflight
            cases hflight
          rw [hskipped]
          exact ih (Nat.lt_of_le_of_ne hhigh hne)
            (show target < index + 1 + rounds by omega) htarget hmissing hidle hseeder
        · refine requestLoop_reqs_ne_nil rounds ?_
          rw [ask, if_neg hflight, hpicked]
          simp
      · exact requestLoop_reqs_ne_nil (rounds + 1) hreqs

theorem nextRequests_progress {maxTotalRequests target : Nat} (hmax : 0 < maxTotalRequests)
    (hrounds : target < sync.info.numChunks) (htarget : target < sync.tracker.numChunks)
    (hmissing : sync.tracker.isReceived target = false)
    (hidle : sync.activeFetches.contains target = false) (hseeder : sync.pickSeeder.isSome) :
    (sync.nextRequests maxTotalRequests now).1 ≠ [] := by
  obtain ⟨last, hlast⟩ : ∃ last, last =
      requestLoop maxTotalRequests now sync.info.numChunks ⟨0, sync, []⟩ := ⟨_, rfl⟩
  have hreqs : last.reqs ≠ [] := by
    rw [hlast]
    refine requestLoop_progress hmax (Nat.zero_le target) ?_ htarget hmissing hidle hseeder
    rwa [Nat.zero_add]
  rw [nextRequests, ← hlast]
  exact hreqs

/-! ## Runs -/

/-- What holds of a sync between two commands. -/
structure Scheduled (info : BlobInfo) (sync : SwarmSync) : Prop where
  sameInfo : sync.info = info
  totalSize : sync.tracker.totalSize = info.size
  bounded : ∀ peer, sync.inFlight peer ≤ 4

variable {info : BlobInfo}

theorem Scheduled.numChunks (h : Scheduled info sync) :
    sync.tracker.numChunks = sync.info.numChunks := by
  rw [ChunkTracker.numChunks, h.totalSize, h.sameInfo]
  rfl

theorem Scheduled.assigning (h : Scheduled info sync) (maxTotalRequests now : Nat) :
    ∃ last, sync.nextRequests maxTotalRequests now = (last.reqs, last.sync) ∧
      Assigning sync maxTotalRequests now last :=
  ⟨_, rfl, (Assigning.start h.bounded).requestLoop _⟩

theorem Scheduled.step [BaoSlices] (h : Scheduled info sync) (command : SwarmCommand) :
    Scheduled info (sync.step command) := by
  -- for any `next`: where the cases are told apart, the loop of `next_requests` is not unfolded
  have hcases : ∀ next : Nat → Nat → List (PhysicalDevicePk × BlobReq) × SwarmSync,
      (∀ maxTotalRequests now, Scheduled info (next maxTotalRequests now).2) →
      Scheduled info (match command with
        | .addSeeder peer => sync.addSeeder peer
        | .removeSeeder peer => sync.removeSeeder peer
        | .nextRequests maxTotalRequests now => (next maxTotalRequests now).2
        | .clearStalledFetches now => sync.clearStalledFetches now
        | .chunkReceived chunk => (sync.onChunkReceived chunk).2) := by
    intro next hnext
    cases command with
    | addSeeder peer => exact ⟨h.sameInfo, h.totalSize, h.bounded⟩
    | removeSeeder peer =>
        exact ⟨h.sameInfo, h.totalSize, fun other =>
          (sync.inFlight_retain_le _ other).trans (h.bounded other)⟩
    | nextRequests maxTotalRequests now => exact hnext maxTotalRequests now
    | clearStalledFetches now =>
        exact ⟨h.sameInfo, h.totalSize, fun other =>
          (sync.inFlight_retain_le _ other).trans (h.bounded other)⟩
    | chunkReceived chunk =>
        have hbounded := fun other =>
          (sync.inFlight_retain_le (fun index _ => index ≠ chunk.offset / chunkSize) other).trans
            (h.bounded other)
        unfold onChunkReceived
        dsimp only
        split
        · exact ⟨h.sameInfo, h.totalSize, hbounded⟩
        · exact ⟨h.sameInfo, h.totalSize, hbounded⟩
  refine hcases sync.nextRequests fun maxTotalRequests now => ?_
  obtain ⟨last, hlast, hloop⟩ := h.assigning maxTotalRequests now
  rw [hlast]
  refine ⟨hloop.tracks.info.trans h.sameInfo, ?_, hloop.bounded⟩
  rw [hloop.tracks.tracker, h.totalSize]

/-- What the fetches of a sync and the next call of `next_requests` keep to. -/
structure Schedules (sync : SwarmSync) : Prop where
  assigned : ∀ index fetch other, (index, fetch) ∈ sync.activeFetches.entries →
    (index, other) ∈ sync.activeFetches.entries → fetch = other
  bounded : ∀ peer, sync.inFlight peer ≤ 4
  limited : ∀ maxTotalRequests now,
    (sync.nextRequests maxTotalRequests now).1.length ≤ maxTotalRequests
  requested : ∀ maxTotalRequests now peer req,
    (peer, req) ∈ (sync.nextRequests maxTotalRequests now).1 →
      ∃ index, Requests sync (sync.nextRequests maxTotalRequests now).2 now peer req index
  distinct : ∀ maxTotalRequests now,
    ((sync.nextRequests maxTotalRequests now).1.map fun entry => entry.2.offset).Nodup
  progresses : ∀ maxTotalRequests now, 0 < maxTotalRequests →
    (∃ index < sync.tracker.numChunks, sync.tracker.isReceived index = false ∧
      sync.activeFetches.get index = none) →
    (∃ peer ∈ sync.seeders, sync.inFlight peer < 4) →
    (sync.nextRequests maxTotalRequests now).1 ≠ []

theorem Scheduled.schedules (h : Scheduled info sync) : Schedules sync where
  assigned index fetch other hfetch hother := by
    rw [← AssocMap.get_eq_some_iff] at hfetch hother
    exact Option.some.inj (hfetch.symm.trans hother)
  bounded := h.bounded
  limited maxTotalRequests now := by
    obtain ⟨last, hlast, hloop⟩ := h.assigning maxTotalRequests now
    rw [hlast]
    exact hloop.limited
  requested maxTotalRequests now := by
    obtain ⟨last, hlast, hloop⟩ := h.assigning maxTotalRequests now
    rw [hlast]
    exact hloop.requested
  distinct maxTotalRequests now := by
    obtain ⟨last, hlast, hloop⟩ := h.assigning maxTotalRequests now
    rw [hlast]
    exact hloop.distinct
  progresses := by
    rintro maxTotalRequests now hmax ⟨index, hindex, hmissing, hidle⟩ ⟨peer, hpeer, hfree⟩
    have hcontains : sync.activeFetches.contains index = false := by
      rw [AssocMap.contains_eq, hidle]
      rfl
    exact nextRequests_progress hmax (h.numChunks ▸ hindex) hindex hmissing hcontains
      (sync.pickSeeder_spec.2 peer hpeer hfree)

/-- In every state of every run no chunk is fetched from two peers and no peer has more than
four fetches; a call asks for missing chunks that are not in flight, for as many as it may at
most, and for at least one if it can. -/
theorem run_schedules [BaoSlices] (info : BlobInfo) (commands : List SwarmCommand) :
    Schedules (runFrom SwarmSync.step (.new info) commands) := by
  have hstep : ∀ (sync : SwarmSync) command, Scheduled info sync →
      Scheduled info (sync.step command) := fun _ command h => h.step command
  have hnew : Scheduled info (.new info) := ⟨rfl, rfl, fun _ => Nat.zero_le 4⟩
  exact (runFrom_invariant hstep commands hnew).schedules

end SwarmSync

end MerkleTox.Fs
