import Mathlib.Data.List.Rotate
import MerkleTox.Sequenced.Pacing

/-! # The deficit round robin

The levels with messages wait in a cycle. A visit to a level tops up its deficit once, offers its
messages in the order of their queue and stops at the first that is ready: it is sent if the
deficit covers it and otherwise waits for the next quantum.
-/

namespace MerkleTox.Sequenced

variable {other target : Fin 5} {id : MessageId} {queue : List MessageId}

namespace PriorityScheduler

/-- `(priority as usize).min(NUM_PRIORITIES - 1)`. -/
def levelOf (priority : Nat) : Fin 5 := ⟨min priority 4, by omega⟩

/-- No deficit grows beyond this. -/
def deficitCap : Int := 16384

variable {size : Nat} {α : Type} {answer : Option MessageId}

theorem asI32_of_lt (h : size < 2 ^ 31) : asI32 size = size :=
  Int.bmod_eq_of_le (by omega) (by omega)

/-! ## One level -/

section Level

variable (isReady : MessageId → Option Nat) (level : Fin 5) (scheduler : PriorityScheduler)

/-- The deficit that a visit to the level has to spend. -/
def charged : Int :=
  if scheduler.needsQuantum level then
    min (scheduler.deficits level + scheduler.quantums level) deficitCap
  else scheduler.deficits level

/-- The first ready message of the level is covered by what a visit has to spend. -/
def Fits : Prop :=
  ∃ size, (scheduler.activeQueues level).findSome? isReady = some size ∧
    asI32 size ≤ scheduler.charged level

def setQueue (queue : List MessageId) : PriorityScheduler :=
  { scheduler with activeQueues := assign scheduler.activeQueues level queue }

end Level

variable {isReady : MessageId → Option Nat} {level : Fin 5} {scheduler : PriorityScheduler}

@[simp]
theorem assign_self (values : Fin 5 → α) (level : Fin 5) (value : α) :
    assign values level value level = value := by
  simp [assign]

theorem assign_of_ne (values : Fin 5 → α) {level : Fin 5} (value : α) (h : other ≠ level) :
    assign values level value other = values other := by
  simp [assign, h]

theorem assign_assign (values : Fin 5 → α) (level : Fin 5) (value last : α) :
    assign (assign values level value) level last = assign values level last := by
  funext other
  by_cases h : other = level
  · rw [h, assign_self, assign_self]
  · rw [assign_of_ne _ _ h, assign_of_ne _ _ h, assign_of_ne _ _ h]

theorem activeQueues_setQueue (queue : List MessageId) :
    (scheduler.setQueue level queue).activeQueues level = queue :=
  assign_self _ _ _

theorem setQueue_setQueue (first last : List MessageId) :
    (scheduler.setQueue level first).setQueue level last = scheduler.setQueue level last := by
  simp only [setQueue, assign_assign]

theorem rotate_eq {id : MessageId} {rest : List MessageId}
    (hqueue : scheduler.activeQueues level = id :: rest) :
    scheduler.rotate level = scheduler.setQueue level (rest ++ [id]) := by
  rw [rotate, hqueue, setQueue, List.rotate_cons_succ, List.rotate_zero]

/-- What the loop over the messages of a level does. -/
inductive Served (isReady : MessageId → Option Nat) (level : Fin 5) (scheduler : PriorityScheduler) :
    Option MessageId × PriorityScheduler → Prop
  | idle (hnone : ∀ id ∈ scheduler.activeQueues level, isReady id = none) :
      Served isReady level scheduler (none,
        (scheduler.setQueue level (scheduler.activeQueues level)).requeue level)
  | short {before after : List MessageId} {id : MessageId} {size : Nat}
      (hqueue : scheduler.activeQueues level = before ++ id :: after)
      (hbefore : ∀ other ∈ before, isReady other = none) (hready : isReady id = some size)
      (hshort : scheduler.deficits level < asI32 size) :
      Served isReady level scheduler (none,
        (scheduler.setQueue level (id :: after ++ before)).requeue level)
  | sent {before after : List MessageId} {id : MessageId} {size : Nat}
      (hqueue : scheduler.activeQueues level = before ++ id :: after)
      (hbefore : ∀ other ∈ before, isReady other = none) (hready : isReady id = some size)
      (hcovered : asI32 size ≤ scheduler.deficits level) {served : PriorityScheduler}
      (hqueues : served.activeQueues =
        assign scheduler.activeQueues level (after ++ before ++ [id]))
      (hdeficits : served.deficits =
        assign scheduler.deficits level (scheduler.deficits level - asI32 size))
      (hquantums : served.quantums = scheduler.quantums)
      (hlevels : served.activeLevels.Perm (level :: scheduler.activeLevels))
      (hneeds : ∀ other ≠ level, served.needsQuantum other = scheduler.needsQuantum other) :
      Served isReady level scheduler (some id, served)

/-- The loop, with the messages that it has passed over behind the rest of the queue. -/
theorem serveLevel_go (rest passed : List MessageId)
    (hpassed : ∀ id ∈ passed, isReady id = none) (scheduler : PriorityScheduler) :
    Served isReady level (scheduler.setQueue level (passed ++ rest))
      (serveLevel isReady level rest.length (scheduler.setQueue level (rest ++ passed))) := by
  induction rest generalizing passed with
  | nil =>
      have hidle := @Served.idle isReady level (scheduler.setQueue level passed) fun id hid => by
        rw [activeQueues_setQueue] at hid
        exact hpassed id hid
      rw [setQueue_setQueue, activeQueues_setQueue] at hidle
      rw [List.append_nil]
      exact hidle
  | cons id rest ih =>
      have hqueue : (scheduler.setQueue level (id :: rest ++ passed)).activeQueues level =
          id :: (rest ++ passed) := activeQueues_setQueue _
      have hwhole : (scheduler.setQueue level (passed ++ id :: rest)).activeQueues level =
          passed ++ id :: rest := activeQueues_setQueue _
      rw [List.length_cons, serveLevel]
      simp only [hqueue]
      cases hready : isReady id with
      | none =>
          have hrotated := rotate_eq hqueue
          rw [setQueue_setQueue] at hrotated
          have hstep := ih (passed ++ [id]) fun other hother => by
            rcases List.mem_append.mp hother with hold | hnew
            · exact hpassed other hold
            · rw [List.mem_singleton.mp hnew, hready]
          rw [List.append_assoc, List.singleton_append, ← List.append_assoc, ← hrotated] at hstep
          exact hstep
      | some size =>
          dsimp only
          split
          next hcovered =>
            have hrotated := @rotate_eq level { scheduler.setQueue level (id :: rest ++ passed) with
              deficits := assign scheduler.deficits level
                (scheduler.deficits level - asI32 size) } id (rest ++ passed) hqueue
            have hqueues : assign (assign scheduler.activeQueues level (id :: rest ++ passed)) level
                (rest ++ passed ++ [id]) = assign (assign scheduler.activeQueues level
                  (passed ++ id :: rest)) level (rest ++ passed ++ [id]) := by
              rw [assign_assign, assign_assign]
            split
            next =>
              refine Served.sent hwhole hpassed hready hcovered ?_ rfl rfl (List.Perm.refl _)
                fun _ _ => rfl
              exact (congrArg activeQueues hrotated).trans hqueues
            next =>
              refine Served.sent hwhole hpassed hready hcovered ?_ rfl rfl
                (List.perm_append_singleton level _) fun other hother => assign_of_ne _ _ hother
              exact (congrArg activeQueues hrotated).trans hqueues
          next hshort =>
            have h := Served.short hwhole hpassed hready (Int.not_le.mp hshort)
            rw [setQueue_setQueue] at h
            exact h

theorem serveLevel_spec (isReady : MessageId → Option Nat) (level : Fin 5)
    (scheduler : PriorityScheduler) :
    Served isReady level scheduler
      (serveLevel isReady level (scheduler.activeQueues level).length scheduler) := by
  have hself : scheduler.setQueue level (scheduler.activeQueues level) = scheduler := by
    have hqueues : assign scheduler.activeQueues level (scheduler.activeQueues level) =
        scheduler.activeQueues := by
      funext other
      by_cases h : other = level
      · rw [h, assign_self]
      · rw [assign_of_ne _ _ h]
    rw [setQueue, hqueues]
  have hgo := @serveLevel_go isReady level (scheduler.activeQueues level) [] nofun scheduler
  rw [List.nil_append, List.append_nil, hself] at hgo
  exact hgo

/-! ## One round -/

/-- What one round of `nextMessage` does for the level that it takes from the cycle. -/
structure Round (isReady : MessageId → Option Nat) (scheduler : PriorityScheduler) (level : Fin 5)
    (levels : List (Fin 5)) (answer : Option MessageId) (after : PriorityScheduler) : Prop where
  queues : ∀ other, (after.activeQueues other).Perm (scheduler.activeQueues other)
  quantums : after.quantums = scheduler.quantums
  frame : ∀ other ≠ level, after.deficits other = scheduler.deficits other ∧
    after.needsQuantum other = scheduler.needsQuantum other
  served : answer.isSome = true ↔ scheduler.Fits isReady level
  levelsServed : answer.isSome = true → after.activeLevels.Perm (level :: levels)
  levelsPassed : answer = none → after.activeLevels =
    if (scheduler.activeQueues level).isEmpty then levels else levels ++ [level]
  waiting : answer = none → ∀ other, (after.activeQueues other).findSome? isReady =
    (scheduler.activeQueues other).findSome? isReady
  topped : answer = none → scheduler.activeQueues level ≠ [] →
    after.deficits level = scheduler.charged level ∧ after.needsQuantum level = true
  bounded : (∀ id size, isReady id = some size → size < 2 ^ 31) → 0 ≤ scheduler.quantums level →
    0 ≤ scheduler.deficits level → scheduler.deficits level ≤ deficitCap →
      0 ≤ after.deficits level ∧ after.deficits level ≤ deficitCap

theorem charged_bounds (hquantum : 0 ≤ scheduler.quantums level)
    (hlow : 0 ≤ scheduler.deficits level) (hhigh : scheduler.deficits level ≤ deficitCap) :
    0 ≤ scheduler.charged level ∧ scheduler.charged level ≤ deficitCap := by
  unfold charged
  split
  · exact ⟨le_min (Int.add_nonneg hlow hquantum) (by decide), min_le_right _ _⟩
  · exact ⟨hlow, hhigh⟩

theorem findSome?_of_before {before after : List MessageId}
    (hbefore : ∀ other ∈ before, isReady other = none) (hready : isReady id = some size) :
    (before ++ id :: after).findSome? isReady = some size := by
  rw [List.findSome?_append, List.findSome?_eq_none_iff.mpr hbefore, Option.none_or,
    List.findSome?_cons, hready]

theorem perm_assign {queues : Fin 5 → List MessageId} (h : queue.Perm (queues level))
    (other : Fin 5) :
    (assign queues level queue other).Perm (queues other) := by
  by_cases hother : other = level
  · rw [hother, assign_self]
    exact h
  · rw [assign_of_ne _ _ hother]

variable {levels : List (Fin 5)} {after : PriorityScheduler}

/-- A level without messages leaves the cycle. -/
theorem Round.of_empty (hempty : scheduler.activeQueues level = []) :
    Round isReady scheduler level levels none { scheduler with
      activeLevels := levels
      deficits := assign scheduler.deficits level 0
      needsQuantum := assign scheduler.needsQuantum level true } := by
  refine ⟨fun _ => List.Perm.refl _, rfl, fun other hother => ?_, ?_, nofun, fun _ => ?_,
    fun _ _ => rfl, fun _ hqueue => absurd hempty hqueue, fun _ _ _ _ => ?_⟩
  · exact ⟨assign_of_ne _ _ hother, assign_of_ne _ _ hother⟩
  · refine ⟨nofun, ?_⟩
    rintro ⟨size, hsize, -⟩
    rw [hempty] at hsize
    cases hsize
  · rw [hempty]
    rfl
  · change 0 ≤ assign scheduler.deficits level 0 level ∧
      assign scheduler.deficits level 0 level ≤ deficitCap
    rw [assign_self]
    decide

/-- The scheduler while it serves a level taken from the cycle. -/
def charge (scheduler : PriorityScheduler) (level : Fin 5) (levels : List (Fin 5)) :
    PriorityScheduler :=
  if scheduler.needsQuantum level then
    { scheduler with
      activeLevels := levels
      deficits := assign scheduler.deficits level
        (min (scheduler.deficits level + scheduler.quantums level) 16384)
      needsQuantum := assign scheduler.needsQuantum level false }
  else { scheduler with activeLevels := levels }

section Charge

variable (scheduler : PriorityScheduler) (level : Fin 5) (levels : List (Fin 5))

@[simp]
theorem activeQueues_charge :
    (scheduler.charge level levels).activeQueues = scheduler.activeQueues := by
  unfold charge
  split <;> rfl

@[simp]
theorem activeLevels_charge : (scheduler.charge level levels).activeLevels = levels := by
  unfold charge
  split <;> rfl

@[simp]
theorem quantums_charge : (scheduler.charge level levels).quantums = scheduler.quantums := by
  unfold charge
  split <;> rfl

theorem deficits_charge_self :
    (scheduler.charge level levels).deficits level = scheduler.charged level := by
  unfold charge charged
  split
  · exact assign_self _ _ _
  · rfl

theorem charge_of_ne (h : other ≠ level) :
    (scheduler.charge level levels).deficits other = scheduler.deficits other ∧
      (scheduler.charge level levels).needsQuantum other = scheduler.needsQuantum other := by
  unfold charge
  split
  · exact ⟨assign_of_ne _ _ h, assign_of_ne _ _ h⟩
  · exact ⟨rfl, rfl⟩

end Charge

theorem Round.of_served (hqueue : scheduler.activeQueues level ≠ [])
    (h : Served isReady level (scheduler.charge level levels) (answer, after)) :
    Round isReady scheduler level levels answer after := by
  have hcharged := scheduler.deficits_charge_self level levels
  have hfits : ∀ {size}, (scheduler.activeQueues level).findSome? isReady = some size →
      (scheduler.Fits isReady level ↔ asI32 size ≤ scheduler.charged level) := by
    intro size hsize
    refine ⟨?_, fun hcovered => ⟨size, hsize, hcovered⟩⟩
    rintro ⟨other, hother, hcovered⟩
    rw [hsize, Option.some.injEq] at hother
    rwa [hother]
  -- a level that is not served waits for the next quantum
  have hpassed : ∀ queue : List MessageId, queue.Perm (scheduler.activeQueues level) →
      queue.findSome? isReady = (scheduler.activeQueues level).findSome? isReady →
      ¬ scheduler.Fits isReady level →
      Round isReady scheduler level levels none
        (((scheduler.charge level levels).setQueue level queue).requeue level) := by
    intro queue hperm hfirst hnot
    refine ⟨?_, quantums_charge _ _ _, fun other hother => ?_, iff_of_false nofun hnot, nofun,
      fun _ => ?_, fun _ other => ?_, fun _ _ => ⟨hcharged, assign_self _ _ _⟩,
      fun _ hquantum hlow hhigh => ?_⟩
    · intro other
      change (assign (scheduler.charge level levels).activeQueues level queue other).Perm _
      rw [activeQueues_charge]
      exact perm_assign hperm other
    · obtain ⟨hdeficit, hneeds⟩ := scheduler.charge_of_ne level levels hother
      exact ⟨hdeficit, (assign_of_ne _ _ hother).trans hneeds⟩
    · rw [if_neg (by simpa using hqueue)]
      exact congrArg (· ++ [level]) (activeLevels_charge _ _ _)
    · change (assign (scheduler.charge level levels).activeQueues level queue other).findSome? _ = _
      by_cases hother : other = level
      · rw [hother, assign_self, hfirst]
      · rw [assign_of_ne _ _ hother, activeQueues_charge]
    · change 0 ≤ (scheduler.charge level levels).deficits level ∧
        (scheduler.charge level levels).deficits level ≤ deficitCap
      rw [hcharged]
      exact charged_bounds hquantum hlow hhigh
  cases h with
  | idle hnone =>
      rw [activeQueues_charge] at hnone ⊢
      refine hpassed _ (List.Perm.refl _) rfl ?_
      rintro ⟨size, hsize, -⟩
      rw [List.findSome?_eq_none_iff.mpr hnone] at hsize
      cases hsize
  | @short before rest id size hwhole hbefore hready hshort =>
      rw [activeQueues_charge] at hwhole
      have hsize : (scheduler.activeQueues level).findSome? isReady = some size := by
        rw [hwhole]
        exact findSome?_of_before hbefore hready
      refine hpassed _ ?_ ?_ ?_
      · rw [hwhole]
        exact List.perm_append_comm
      · rw [hsize, List.cons_append, List.findSome?_cons, hready]
      · rw [hfits hsize, ← hcharged]
        exact Int.not_le.mpr hshort
  | @sent before rest id size hwhole hbefore hready hcovered _ hqueues hdeficits hquantums hlevels
      hneeds =>
      rw [activeQueues_charge] at hwhole hqueues
      rw [activeLevels_charge] at hlevels
      rw [quantums_charge] at hquantums
      have hsize : (scheduler.activeQueues level).findSome? isReady = some size := by
        rw [hwhole]
        exact findSome?_of_before hbefore hready
      refine ⟨fun other => ?_, hquantums, fun other hother => ?_, ?_, fun _ => hlevels, nofun, nofun,
        nofun, fun hsmall hquantum hlow hhigh => ?_⟩
      · rw [hqueues]
        refine perm_assign ?_ other
        rw [hwhole, List.append_assoc]
        exact List.perm_append_comm.trans (by simp)
      · obtain ⟨hdeficit, hneed⟩ := scheduler.charge_of_ne level levels hother
        rw [hdeficits, assign_of_ne _ _ hother, hneeds other hother]
        exact ⟨hdeficit, hneed⟩
      · rw [hfits hsize, ← hcharged]
        exact iff_of_true rfl hcovered
      · have hbounds := charged_bounds hquantum hlow hhigh
        have hexact := asI32_of_lt (hsmall id size hready)
        rw [hdeficits, assign_self, hcharged]
        rw [hcharged] at hcovered
        rw [hexact] at hcovered ⊢
        omega

/-! ## A call -/

theorem nextMessage_go_succ (isReady : MessageId → Option Nat) (rounds : Nat)
    (hlevels : scheduler.activeLevels = level :: levels) :
    ∃ answer after, Round isReady scheduler level levels answer after ∧
      nextMessage.go isReady (rounds + 1) scheduler =
        match answer with
        | some id => (some id, after)
        | none => nextMessage.go isReady rounds after := by
  rw [nextMessage.go]
  simp only [hlevels]
  split
  next hempty => exact ⟨none, _, .of_empty (List.isEmpty_iff.mp hempty), rfl⟩
  next hqueue =>
    rw [List.isEmpty_iff] at hqueue
    have hserved := serveLevel_spec isReady level (scheduler.charge level levels)
    rw [activeQueues_charge] at hserved
    have hcharge : (if scheduler.needsQuantum level then
        { scheduler with
          activeLevels := levels
          deficits := assign scheduler.deficits level
            (min (scheduler.deficits level + scheduler.quantums level) 16384)
          needsQuantum := assign scheduler.needsQuantum level false }
      else { scheduler with activeLevels := levels }) = scheduler.charge level levels := rfl
    rw [hcharge, activeQueues_charge]
    cases houtcome : serveLevel isReady level (scheduler.activeQueues level).length
        (scheduler.charge level levels) with
    | mk answer after =>
        rw [houtcome] at hserved
        refine ⟨answer, after, .of_served hqueue hserved, ?_⟩
        cases answer <;> rfl

/-- What a call does when it has `pending` levels before it in the cycle. -/
structure Call (isReady : MessageId → Option Nat) (scheduler : PriorityScheduler)
    (pending : List (Fin 5)) (answer : Option MessageId) (after : PriorityScheduler) : Prop where
  queues : ∀ level, (after.activeQueues level).Perm (scheduler.activeQueues level)
  quantums : after.quantums = scheduler.quantums
  served : answer.isSome = true ↔ ∃ level ∈ pending, scheduler.Fits isReady level
  nodup : after.activeLevels.Nodup
  selected : ∀ level ∈ after.activeLevels, level ∈ scheduler.activeLevels
  kept : ∀ level ∈ scheduler.activeLevels, scheduler.activeQueues level ≠ [] →
    level ∈ after.activeLevels
  dropped : answer = none → ∀ level ∈ pending, scheduler.activeQueues level = [] →
    level ∉ after.activeLevels
  waiting : answer = none → ∀ level, (after.activeQueues level).findSome? isReady =
    (scheduler.activeQueues level).findSome? isReady
  topped : answer = none → ∀ level ∈ pending, scheduler.activeQueues level ≠ [] →
    after.deficits level = scheduler.charged level ∧ after.needsQuantum level = true
  frame : answer = none → ∀ level ∉ pending, after.deficits level = scheduler.deficits level ∧
    after.needsQuantum level = scheduler.needsQuantum level
  bounded : (∀ id size, isReady id = some size → size < 2 ^ 31) →
    (∀ level, 0 ≤ scheduler.quantums level) →
    (∀ level, 0 ≤ scheduler.deficits level ∧ scheduler.deficits level ≤ deficitCap) →
      ∀ level, 0 ≤ after.deficits level ∧ after.deficits level ≤ deficitCap

theorem Round.fits_other (h : Round isReady scheduler level levels none after)
    (hother : other ≠ level) :
    (after.Fits isReady other ↔ scheduler.Fits isReady other) ∧
      after.charged other = scheduler.charged other := by
  obtain ⟨hdeficit, hneeds⟩ := h.frame other hother
  have hcharged : after.charged other = scheduler.charged other := by
    rw [charged, charged, hdeficit, hneeds, h.quantums]
  refine ⟨?_, hcharged⟩
  rw [Fits, Fits, hcharged, h.waiting rfl other]

theorem Round.bounds (h : Round isReady scheduler level levels answer after)
    (hsmall : ∀ id size, isReady id = some size → size < 2 ^ 31)
    (hquantums : ∀ level, 0 ≤ scheduler.quantums level)
    (hdeficits : ∀ level, 0 ≤ scheduler.deficits level ∧ scheduler.deficits level ≤ deficitCap)
    (other : Fin 5) : 0 ≤ after.deficits other ∧ after.deficits other ≤ deficitCap := by
  by_cases hother : other = level
  · subst hother
    exact h.bounded hsmall (hquantums _) (hdeficits _).1 (hdeficits _).2
  · rw [(h.frame other hother).1]
    exact hdeficits other

/-- One visit to every level that is pending, in the order of the cycle. -/
theorem nextMessage_go_spec (isReady : MessageId → Option Nat) (pending visited : List (Fin 5))
    (scheduler : PriorityScheduler) (hlevels : scheduler.activeLevels = pending ++ visited)
    (hnodup : (pending ++ visited).Nodup) :
    Call isReady scheduler pending (nextMessage.go isReady pending.length scheduler).1
      (nextMessage.go isReady pending.length scheduler).2 := by
  induction pending generalizing visited scheduler with
  | nil =>
      rw [List.nil_append] at hlevels hnodup
      refine ⟨fun _ => List.Perm.refl _, rfl, iff_of_false nofun nofun, ?_, fun _ h => h,
        fun _ h _ => h, nofun, fun _ _ => rfl, nofun, fun _ _ _ => ⟨rfl, rfl⟩, fun _ _ h => h⟩
      exact hlevels.symm ▸ hnodup
  | cons level rest ih =>
      obtain ⟨answer, after, hround, hgo⟩ :=
        nextMessage_go_succ isReady rest.length (hlevels.trans (List.cons_append ..))
      rw [List.length_cons, hgo]
      have hfirst := hround.served
      cases answer with
      | some id =>
          have hperm := hround.levelsServed rfl
          rw [← List.cons_append, ← hlevels] at hperm
          refine ⟨hround.queues, hround.quantums, iff_of_true rfl ?_, ?_, ?_, ?_, nofun, nofun, nofun,
            nofun, hround.bounds⟩
          · exact ⟨level, List.mem_cons_self, hfirst.mp rfl⟩
          · exact hperm.nodup_iff.mpr (hlevels ▸ hnodup)
          · exact fun other hother => hperm.mem_iff.mp hother
          · exact fun other hother _ => hperm.mem_iff.mpr hother
      | none =>
          obtain ⟨hfresh, hrestNodup⟩ := List.nodup_cons.mp (List.cons_append .. ▸ hnodup)
          have hne : ∀ other ∈ rest, other ≠ level := fun other hother heq =>
            hfresh (heq ▸ List.mem_append_left _ hother)
          have hempty : ∀ other, after.activeQueues other = [] ↔ scheduler.activeQueues other = [] :=
            fun other => by
              rw [← List.length_eq_zero_iff, ← List.length_eq_zero_iff,
                (hround.queues other).length_eq]
          -- the level is behind those visited before it, unless it has left the cycle
          obtain ⟨behind, hbehind, hbehindNodup, hlast⟩ : ∃ behind,
              after.activeLevels = rest ++ behind ∧ (rest ++ behind).Nodup ∧
                ∀ other, other ∈ behind ↔ other ∈ visited ∨
                  (other = level ∧ scheduler.activeQueues level ≠ []) := by
            have hafter := hround.levelsPassed rfl
            split at hafter
            next hnothing =>
              rw [List.isEmpty_iff] at hnothing
              exact ⟨visited, hafter, hrestNodup, fun other => by simp [hnothing]⟩
            next hsome =>
              rw [List.isEmpty_iff] at hsome
              refine ⟨visited ++ [level], by rw [hafter, List.append_assoc], ?_, fun other => by
                simp [hsome]⟩
              rw [← List.append_assoc]
              exact (List.perm_append_singleton level _).nodup_iff.mpr
                (List.nodup_cons.mpr ⟨hfresh, hrestNodup⟩)
          have hcall := ih behind after hbehind hbehindNodup
          have hmem : ∀ other, other ∈ after.activeLevels ↔ other ∈ rest ∨ other ∈ visited ∨
              (other = level ∧ scheduler.activeQueues level ≠ []) := fun other => by
            rw [hbehind, List.mem_append, hlast]
          have hfits : (∃ other ∈ level :: rest, scheduler.Fits isReady other) ↔
              ∃ other ∈ rest, after.Fits isReady other := by
            have hnot : ¬ scheduler.Fits isReady level := fun h => nomatch hfirst.mpr h
            constructor
            · rintro ⟨other, hother, h⟩
              rcases List.mem_cons.mp hother with rfl | hin
              · exact absurd h hnot
              · exact ⟨other, hin, (hround.fits_other (hne other hin)).1.mpr h⟩
            · rintro ⟨other, hother, h⟩
              exact ⟨other, List.mem_cons_of_mem _ hother,
                (hround.fits_other (hne other hother)).1.mp h⟩
          have hlevelNot : level ∉ rest := fun h => hne level h rfl
          refine ⟨fun other => (hcall.queues other).trans (hround.queues other),
            hcall.quantums.trans hround.quantums, hcall.served.trans hfits.symm, hcall.nodup, ?_, ?_,
            ?_, ?_, ?_, ?_, ?_⟩
          · intro other hother
            have hbefore := (hmem other).mp (hcall.selected other hother)
            rw [hlevels, List.cons_append, List.mem_cons, List.mem_append]
            tauto
          · intro other hother hqueue
            refine hcall.kept other ?_ (mt (hempty other).mp hqueue)
            rw [hlevels, List.cons_append, List.mem_cons, List.mem_append] at hother
            rw [hmem]
            rcases hother with rfl | hin | hin
            · exact .inr (.inr ⟨rfl, hqueue⟩)
            · exact .inl hin
            · exact .inr (.inl hin)
          · intro hnone other hother hqueue hselected
            rcases List.mem_cons.mp hother with rfl | hin
            · rcases (hmem other).mp (hcall.selected other hselected) with h | h | h
              · exact hlevelNot h
              · exact hfresh (List.mem_append_right _ h)
              · exact h.2 hqueue
            · exact hcall.dropped hnone other hin ((hempty other).mpr hqueue) hselected
          · exact fun hnone other => (hcall.waiting hnone other).trans (hround.waiting rfl other)
          · intro hnone other hother hqueue
            rcases List.mem_cons.mp hother with rfl | hin
            · obtain ⟨hdeficit, hneeds⟩ := hcall.frame hnone other hlevelNot
              obtain ⟨htopped, hneeded⟩ := hround.topped rfl hqueue
              exact ⟨hdeficit.trans htopped, hneeds.trans hneeded⟩
            · obtain ⟨htopped, hneeded⟩ :=
                hcall.topped hnone other hin (mt (hempty other).mp hqueue)
              exact ⟨htopped.trans (hround.fits_other (hne other hin)).2, hneeded⟩
          · intro hnone other hother
            rw [List.mem_cons, not_or] at hother
            obtain ⟨hdeficit, hneeds⟩ := hcall.frame hnone other hother.2
            obtain ⟨hkept, hsame⟩ := hround.frame other hother.1
            exact ⟨hdeficit.trans hkept, hneeds.trans hsame⟩
          · intro hsmall hquantums hdeficits
            exact hcall.bounded hsmall (fun other => hround.quantums ▸ hquantums other)
              (hround.bounds hsmall hquantums hdeficits)

theorem nextMessage_spec (isReady : MessageId → Option Nat) (hnodup : scheduler.activeLevels.Nodup) :
    Call isReady scheduler scheduler.activeLevels (scheduler.nextMessage isReady).1
      (scheduler.nextMessage isReady).2 := by
  have hlevels : scheduler.activeLevels = scheduler.activeLevels ++ [] := (List.append_nil _).symm
  exact nextMessage_go_spec isReady scheduler.activeLevels [] scheduler hlevels (hlevels ▸ hnodup)

/-! ## Waiting for the deficit -/

/-- The scheduler after so many calls with the same closure. -/
def callTimes (isReady : MessageId → Option Nat) : Nat → PriorityScheduler → PriorityScheduler
  | 0, scheduler => scheduler
  | calls + 1, scheduler => callTimes isReady calls (scheduler.nextMessage isReady).2

theorem Call.charged_after {pending : List (Fin 5)} (h : Call isReady scheduler pending none after)
    (hlevel : level ∈ pending) (hqueue : scheduler.activeQueues level ≠ []) :
    after.charged level = min (scheduler.charged level + scheduler.quantums level) deficitCap := by
  obtain ⟨hdeficit, hneeds⟩ := h.topped rfl level hlevel hqueue
  rw [charged, hneeds, if_pos rfl, hdeficit, h.quantums]

/-- Every call without an answer tops up the level, until its first ready message is covered. -/
theorem answered_within (calls : Nat) (hsize : (size : Int) ≤ deficitCap)
    (scheduler : PriorityScheduler) (hnodup : scheduler.activeLevels.Nodup)
    (hlevel : level ∈ scheduler.activeLevels)
    (hfirst : (scheduler.activeQueues level).findSome? isReady = some size)
    (hquantum : 512 ≤ scheduler.quantums level)
    (hcharged : deficitCap ≤ scheduler.charged level + 512 * calls) :
    ∃ earlier ≤ calls, ((callTimes isReady earlier scheduler).nextMessage isReady).1.isSome = true := by
  have hsmall : asI32 size = size := asI32_of_lt (by
    change (size : Int) ≤ 16384 at hsize
    omega)
  have hcall := nextMessage_spec isReady hnodup
  induction calls generalizing scheduler with
  | zero =>
      refine ⟨0, le_rfl, hcall.served.mpr ⟨level, hlevel, size, hfirst, ?_⟩⟩
      rw [hsmall]
      exact hsize.trans (by simpa using hcharged)
  | succ calls ih =>
      cases hanswer : (scheduler.nextMessage isReady).1 with
      | some id => exact ⟨0, Nat.zero_le _, by rw [callTimes, hanswer]; rfl⟩
      | none =>
          rw [hanswer] at hcall
          have hqueue : scheduler.activeQueues level ≠ [] := by
            intro hempty
            rw [hempty] at hfirst
            cases hfirst
          have htopped := hcall.charged_after hlevel hqueue
          have hnext := hcall.nodup
          obtain ⟨earlier, hle, hsome⟩ := ih (scheduler.nextMessage isReady).2 hnext
            (hcall.kept level hlevel hqueue) ((hcall.waiting rfl level).trans hfirst)
            (hcall.quantums ▸ hquantum) (by
              rw [htopped]
              push_cast at hcharged
              change (16384 : Int) ≤ min _ 16384 + _
              change (16384 : Int) ≤ _ at hcharged
              omega) (nextMessage_spec isReady hnext)
          exact ⟨earlier + 1, Nat.succ_le_succ hle, hsome⟩

/-! ## Runs -/

inductive Operation where
  | update (id : MessageId) (priority : Nat)
  | remove (id : MessageId)
  | next (isReady : MessageId → Option Nat)

def Operation.run (scheduler : PriorityScheduler) : Operation → PriorityScheduler
  | .update id priority => scheduler.updateMessage id (levelOf priority)
  | .remove id => scheduler.removeMessage id
  | .next isReady => (scheduler.nextMessage isReady).2

/-- The level under which each message was last added, and not removed since. -/
def Operation.track (live : MessageId → Option (Fin 5)) : Operation → MessageId → Option (Fin 5)
  | .update id priority => Function.update live id (some (levelOf priority))
  | .remove id => Function.update live id none
  | .next _ => live

def runOf (operations : List Operation) : PriorityScheduler :=
  operations.foldl Operation.run new

def liveOf (operations : List Operation) : MessageId → Option (Fin 5) :=
  operations.foldl Operation.track fun _ => none

/-- Each live message is in the queue of its level, once; the selected levels are distinct and
hold those with messages. -/
structure Represents (scheduler : PriorityScheduler) (live : MessageId → Option (Fin 5)) : Prop where
  member : ∀ level id, id ∈ scheduler.activeQueues level ↔ live id = some level
  once : ∀ level, (scheduler.activeQueues level).Nodup
  levels : scheduler.activeLevels.Nodup
  selected : ∀ level, scheduler.activeQueues level ≠ [] → level ∈ scheduler.activeLevels
  quantums : scheduler.quantums = defaultQuantums

variable {live : MessageId → Option (Fin 5)}

theorem represents_new : Represents new fun _ => none :=
  ⟨fun _ _ => iff_of_false nofun nofun, fun _ => List.nodup_nil, List.nodup_nil,
    fun _ hqueue => absurd rfl hqueue, rfl⟩

theorem activeQueues_updateMessage (scheduler : PriorityScheduler) (id : MessageId)
    (level other : Fin 5) :
    (scheduler.updateMessage id level).activeQueues other =
      if other ≠ level then (scheduler.activeQueues other).filter (· ≠ id)
      else if (scheduler.activeQueues other).contains id then scheduler.activeQueues other
      else scheduler.activeQueues other ++ [id] := by
  unfold updateMessage
  by_cases hselected : scheduler.activeLevels.contains level = true
  · rw [if_pos hselected]
  · rw [if_neg hselected]

theorem activeLevels_updateMessage (scheduler : PriorityScheduler) (id : MessageId)
    (level : Fin 5) :
    (scheduler.updateMessage id level).activeLevels.Perm
      (if scheduler.activeLevels.contains level then scheduler.activeLevels
        else level :: scheduler.activeLevels) := by
  unfold updateMessage
  dsimp only
  split
  · exact List.Perm.refl _
  · dsimp only
    split
    · exact List.Perm.refl _
    · exact List.perm_append_singleton _ _

theorem mem_updateMessage {other : MessageId} :
    other ∈ (scheduler.updateMessage id target).activeQueues level ↔
      (other ∈ scheduler.activeQueues level ∧ other ≠ id) ∨
        (other ∈ scheduler.activeQueues level ∧ level = target) ∨ (other = id ∧ level = target) := by
  rw [activeQueues_updateMessage]
  split
  next hother => simp [hother]
  next hsame =>
    rw [not_not] at hsame
    split
    next hin =>
      rw [List.contains_iff_mem] at hin
      constructor
      · exact fun h => .inr (.inl ⟨h, hsame⟩)
      · rintro (h | h | ⟨rfl, -⟩)
        · exact h.1
        · exact h.1
        · exact hin
    next hout =>
      rw [List.mem_append, List.mem_singleton]
      by_cases heq : other = id <;> simp [heq, hsame]

theorem Represents.update (h : Represents scheduler live) (id : MessageId) (priority : Nat) :
    Represents (scheduler.updateMessage id (levelOf priority))
      (Function.update live id (some (levelOf priority))) := by
  have hperm := activeLevels_updateMessage scheduler id (levelOf priority)
  have hin : ∀ level, level ∈ (scheduler.updateMessage id (levelOf priority)).activeLevels ↔
      level ∈ scheduler.activeLevels ∨ level = levelOf priority := by
    intro level
    rw [hperm.mem_iff]
    split
    next hselected =>
      rw [List.contains_iff_mem] at hselected
      exact ⟨.inl, fun hor => hor.elim (fun hold => hold) fun heq => heq ▸ hselected⟩
    next => rw [List.mem_cons, or_comm]
  refine ⟨fun level other => ?_, fun level => ?_, ?_, fun level hqueue => ?_, ?_⟩
  · rw [mem_updateMessage]
    by_cases heq : other = id
    · subst heq
      rw [Function.update_self, Option.some.injEq]
      constructor
      · rintro (⟨-, hne⟩ | ⟨-, hlevel⟩ | ⟨-, hlevel⟩)
        · exact absurd rfl hne
        · exact hlevel.symm
        · exact hlevel.symm
      · exact fun hlevel => .inr (.inr ⟨rfl, hlevel.symm⟩)
    · rw [Function.update_of_ne heq, ← h.member]
      constructor
      · rintro (⟨hold, -⟩ | ⟨hold, -⟩ | ⟨hsame, -⟩)
        · exact hold
        · exact hold
        · exact absurd hsame heq
      · exact fun hold => .inl ⟨hold, heq⟩
  · rw [activeQueues_updateMessage]
    split
    next => exact (h.once level).filter _
    next =>
      split
      next => exact h.once level
      next hout =>
        rw [List.contains_iff_mem] at hout
        exact List.nodup_append.mpr ⟨h.once level, List.nodup_singleton id, fun first hfirst other
          hother heq => hout (List.mem_singleton.mp hother ▸ heq ▸ hfirst)⟩
  · rw [hperm.nodup_iff]
    split
    next => exact h.levels
    next hout =>
      rw [List.contains_iff_mem] at hout
      exact List.nodup_cons.mpr ⟨hout, h.levels⟩
  · rw [hin]
    obtain ⟨other, hother⟩ := List.exists_mem_of_ne_nil _ hqueue
    rcases mem_updateMessage.mp hother with ⟨hold, -⟩ | ⟨-, hlevel⟩ | ⟨-, hlevel⟩
    · exact .inl (h.selected level (List.ne_nil_of_mem hold))
    · exact .inr hlevel
    · exact .inr hlevel
  · rw [← h.quantums, updateMessage]
    split <;> rfl

theorem activeQueues_removeMessage (scheduler : PriorityScheduler) (id : MessageId)
    (level : Fin 5) :
    (scheduler.removeMessage id).activeQueues level =
      (scheduler.activeQueues level).filter (· ≠ id) := rfl

theorem Represents.remove (h : Represents scheduler live) (id : MessageId) :
    Represents (scheduler.removeMessage id) (Function.update live id none) := by
  refine ⟨fun level other => ?_, fun level => (h.once level).filter _, h.levels.filter _,
    fun level hqueue => ?_, h.quantums⟩
  · rw [activeQueues_removeMessage, List.mem_filter, decide_eq_true_eq]
    by_cases heq : other = id
    · subst heq
      rw [Function.update_self]
      exact iff_of_false (fun hin => hin.2 rfl) nofun
    · rw [Function.update_of_ne heq, ← h.member]
      exact and_iff_left heq
  · have hbefore : scheduler.activeQueues level ≠ [] := fun hempty => hqueue (by
      rw [activeQueues_removeMessage, hempty, List.filter_nil])
    refine List.mem_filter.mpr ⟨h.selected level hbefore, ?_⟩
    rw [Bool.not_eq_true', List.isEmpty_eq_false_iff]
    exact hqueue

theorem Represents.next (h : Represents scheduler live) (isReady : MessageId → Option Nat) :
    Represents (scheduler.nextMessage isReady).2 live := by
  have hcall := nextMessage_spec isReady h.levels
  refine ⟨fun level id => (hcall.queues level).mem_iff.trans (h.member level id),
    fun level => (hcall.queues level).nodup_iff.mpr (h.once level), hcall.nodup,
    fun level hqueue => ?_, hcall.quantums.trans h.quantums⟩
  have hbefore : scheduler.activeQueues level ≠ [] := fun hempty => hqueue
    (List.perm_nil.mp (hempty ▸ hcall.queues level))
  exact hcall.kept level (h.selected level hbefore) hbefore

theorem Represents.step (h : Represents scheduler live) (operation : Operation) :
    Represents (operation.run scheduler) (operation.track live) := by
  cases operation with
  | update id priority => exact h.update id priority
  | remove id => exact h.remove id
  | next isReady => exact h.next isReady

variable (operations : List Operation)

theorem represents_foldl (h : Represents scheduler live) :
    Represents (operations.foldl Operation.run scheduler)
      (operations.foldl Operation.track live) := by
  induction operations generalizing scheduler live with
  | nil => exact h
  | cons operation rest ih => exact ih (h.step operation)

theorem represents_runOf :
    Represents (runOf operations) (liveOf operations) :=
  represents_foldl operations represents_new

/-! ## Empty levels in the cycle -/

/-- Some add of the run has moved a message away from the level. -/
def Vacated (operations : List Operation) (level : Fin 5) : Prop :=
  ∃ before id priority after, operations = before ++ .update id priority :: after ∧
    liveOf before id = some level ∧ levelOf priority ≠ level

theorem Vacated.snoc {operations : List Operation} (h : Vacated operations level)
    (operation : Operation) : Vacated (operations ++ [operation]) level := by
  obtain ⟨before, id, priority, after, heq, hlive, hne⟩ := h
  refine ⟨before, id, priority, after ++ [operation], ?_, hlive, hne⟩
  rw [heq, List.append_assoc, List.cons_append]

theorem runOf_snoc (operation : Operation) :
    runOf (operations ++ [operation]) = operation.run (runOf operations) :=
  List.foldl_concat ..

/-- A level without messages stays in the cycle only after a message has moved away from it. -/
theorem vacated_of_empty :
    ∀ level ∈ (runOf operations).activeLevels, (runOf operations).activeQueues level = [] →
      Vacated operations level := by
  induction operations using List.reverseRecOn with
  | nil => exact nofun
  | append_singleton operations operation ih =>
      intro level hlevel hempty
      rw [runOf_snoc] at hlevel hempty
      have hrep := represents_runOf operations
      -- either the level was empty before, or its messages left with this operation
      by_cases hbefore : (runOf operations).activeQueues level = []
      · refine Vacated.snoc (ih level ?_ hbefore) operation
        cases operation with
        | update id priority =>
            have hin := (activeLevels_updateMessage _ id (levelOf priority)).mem_iff.mp hlevel
            split at hin
            next => exact hin
            next =>
              rcases List.mem_cons.mp hin with heq | hold
              · have hid : id ∈ ((runOf operations).updateMessage id
                    (levelOf priority)).activeQueues level :=
                  mem_updateMessage.mpr (.inr (.inr ⟨rfl, heq⟩))
                exact absurd hempty (List.ne_nil_of_mem hid)
              · exact hold
        | remove id => exact (List.mem_filter.mp hlevel).1
        | next isReady => exact (nextMessage_spec isReady hrep.levels).selected level hlevel
      · obtain ⟨id, hid⟩ := List.exists_mem_of_ne_nil _ hbefore
        cases operation with
        | update other priority =>
            have hgone : id ∉ ((runOf operations).updateMessage other
                (levelOf priority)).activeQueues level := by
              intro hin
              exact absurd hempty (List.ne_nil_of_mem hin)
            rw [mem_updateMessage] at hgone
            push Not at hgone
            obtain ⟨hsame, hmoved, -⟩ := hgone
            refine ⟨operations, other, priority, [], rfl, ?_, fun heq => hmoved hid heq.symm⟩
            rw [← hsame hid]
            exact (hrep.member level id).mp hid
        | remove other =>
            have hkept := (List.mem_filter.mp hlevel).2
            rw [Bool.not_eq_true', List.isEmpty_eq_false_iff] at hkept
            exact absurd hempty hkept
        | next isReady =>
            exact absurd (List.perm_nil.mp (hempty ▸
              ((nextMessage_spec isReady hrep.levels).queues level).symm)) hbefore

/-! ## Deficits -/

/-- The closures of the run report sizes that an `i32` holds. -/
def SmallSizes (operations : List Operation) : Prop :=
  ∀ isReady, .next isReady ∈ operations → ∀ id size, isReady id = some size → size < 2 ^ 31

theorem defaultQuantums_bounds (level : Fin 5) : 512 ≤ defaultQuantums level := by
  revert level
  decide

theorem deficits_bounded (hsmall : SmallSizes operations) :
    ∀ level, 0 ≤ (runOf operations).deficits level ∧
      (runOf operations).deficits level ≤ deficitCap := by
  induction operations using List.reverseRecOn with
  | nil =>
      intro level
      change (0 : Int) ≤ 0 ∧ (0 : Int) ≤ deficitCap
      decide
  | append_singleton operations operation ih =>
      have hbefore := ih fun isReady hin => hsmall isReady (List.mem_append_left _ hin)
      have hrep := represents_runOf operations
      intro level
      rw [runOf_snoc]
      cases operation with
      | update id priority =>
          have hsame : ((runOf operations).updateMessage id (levelOf priority)).deficits =
              (runOf operations).deficits := by
            unfold updateMessage
            dsimp only
            split <;> rfl
          exact hsame ▸ hbefore level
      | remove id =>
          change 0 ≤ (if _ then 0 else (runOf operations).deficits level) ∧
            (if _ then 0 else (runOf operations).deficits level) ≤ deficitCap
          split
          · decide
          · exact hbefore level
      | next isReady =>
          refine (nextMessage_spec isReady hrep.levels).bounded
            (hsmall isReady (List.mem_append_right _ (List.mem_singleton_self _))) (fun level => ?_)
            hbefore level
          rw [hrep.quantums]
          exact Int.le_trans (by decide) (defaultQuantums_bounds level)

/-! ## The laws of a run -/

/-- What holds of the scheduler after a run, and of its next calls. -/
structure Lawful (operations : List Operation) : Prop where
  live : ∀ level id, id ∈ (runOf operations).activeQueues level ↔ liveOf operations id = some level
  once : ∀ level, ((runOf operations).activeQueues level).Nodup
  levels : (runOf operations).activeLevels.Nodup
  selected : ∀ level, (runOf operations).activeQueues level ≠ [] →
    level ∈ (runOf operations).activeLevels
  emptied : ∀ level ∈ (runOf operations).activeLevels,
    (runOf operations).activeQueues level = [] → Vacated operations level
  swept : ∀ isReady, ((runOf operations).nextMessage isReady).1 = none →
    ∀ level ∈ ((runOf operations).nextMessage isReady).2.activeLevels,
      ((runOf operations).nextMessage isReady).2.activeQueues level ≠ []
  deficits : SmallSizes operations → ∀ level, 0 ≤ (runOf operations).deficits level ∧
    (runOf operations).deficits level ≤ deficitCap
  served : ∀ isReady, ((runOf operations).nextMessage isReady).1.isSome = true ↔
    ∃ level, (runOf operations).Fits isReady level
  topped : ∀ isReady, ((runOf operations).nextMessage isReady).1 = none → ∀ level,
    (runOf operations).activeQueues level ≠ [] →
      ((runOf operations).nextMessage isReady).2.charged level =
        min ((runOf operations).charged level + defaultQuantums level) deficitCap
  eventually : SmallSizes operations → ∀ isReady level,
    (∃ id ∈ (runOf operations).activeQueues level, (isReady id).isSome = true) →
    (∀ id ∈ (runOf operations).activeQueues level, ∀ size : Nat, isReady id = some size →
      (size : Int) ≤ deficitCap) →
    ∃ calls ≤ 32, ((callTimes isReady calls (runOf operations)).nextMessage isReady).1.isSome = true

theorem Fits.activeQueues_ne_nil (h : scheduler.Fits isReady level) :
    scheduler.activeQueues level ≠ [] := by
  obtain ⟨size, hsize, -⟩ := h
  intro hempty
  rw [hempty] at hsize
  cases hsize

/-- The representation holds after every run of adds, removals and calls. A call answers if and
only if the first ready message of a level is covered by its deficit; one that does not tops up
every level, so that a ready message is sent by the 33rd call at the latest. -/
theorem runs_lawful (operations : List Operation) : Lawful operations := by
  have hrep := represents_runOf operations
  have hcall := fun isReady => nextMessage_spec isReady hrep.levels
  refine ⟨hrep.member, hrep.once, hrep.levels, hrep.selected, vacated_of_empty operations, ?_,
    deficits_bounded operations, ?_, ?_, ?_⟩
  · intro isReady hnone level hlevel hempty
    have hbefore : (runOf operations).activeQueues level = [] :=
      List.perm_nil.mp (hempty ▸ ((hcall isReady).queues level).symm)
    exact (hcall isReady).dropped hnone level ((hcall isReady).selected level hlevel) hbefore hlevel
  · intro isReady
    rw [(hcall isReady).served]
    constructor
    · exact fun ⟨level, _, hfits⟩ => ⟨level, hfits⟩
    · exact fun ⟨level, hfits⟩ =>
        ⟨level, hrep.selected level hfits.activeQueues_ne_nil, hfits⟩
  · intro isReady hnone level hqueue
    have hpassed := hcall isReady
    rw [hnone] at hpassed
    rw [← hrep.quantums]
    exact hpassed.charged_after (hrep.selected level hqueue) hqueue
  · intro hsmall isReady level ⟨id, hid, hready⟩ hsizes
    obtain ⟨size, hfirst⟩ : ∃ size,
        ((runOf operations).activeQueues level).findSome? isReady = some size := by
      rw [← Option.isSome_iff_exists, List.findSome?_isSome_iff]
      exact ⟨id, hid, hready⟩
    obtain ⟨first, hin, hsize⟩ := List.exists_of_findSome?_eq_some hfirst
    have hquantum : 512 ≤ (runOf operations).quantums level :=
      hrep.quantums ▸ defaultQuantums_bounds level
    obtain ⟨hlow, hhigh⟩ := deficits_bounded operations hsmall level
    have hcharged := charged_bounds (by omega) hlow hhigh
    exact answered_within 32 (hsizes first hin size hsize) _ hrep.levels
      (hrep.selected level (List.ne_nil_of_mem hid)) hfirst hquantum (by
        change (16384 : Int) ≤ _
        push_cast
        omega)

/-- A message of the lowest priority with a fragment of 1000 bytes is not sent by the first call,
an emptied level stays selected, and a size beyond an `i32` raises a deficit over the cap. -/
theorem next_message_idles :
    ((runOf [.update 7 4]).nextMessage fun _ => some 1000).1 = none ∧
      (1 : Fin 5) ∈ (runOf [.update 7 1, .update 7 4]).activeLevels ∧
      (runOf [.update 7 1, .update 7 4]).activeQueues 1 = [] ∧
      deficitCap < (runOf [.update 7 0, .next fun _ => some (2 ^ 32 - 16384)]).deficits 0 := by
  decide

/-- It is sent by the second. -/
theorem runs_lawful_bulk : ∃ calls ≤ 32,
    ((callTimes (fun _ => some 1000) calls (runOf [.update 7 4])).nextMessage
      fun _ => some 1000).1.isSome = true :=
  (runs_lawful [.update 7 4]).eventually (fun _ hnext => by simp at hnext) (fun _ => some 1000) 4
    ⟨7, by decide, rfl⟩ fun _ _ _ hsize => by
      cases hsize
      decide

end PriorityScheduler

end MerkleTox.Sequenced
