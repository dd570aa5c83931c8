import Mathlib.Data.Int.Order.Basic
import Mathlib.Data.List.Induction
import Mathlib.Data.List.Nodup
import Mathlib.Logic.Function.Basic

/-! # Numbers taken out of order

Numbers from 1 on are taken in any order, each at a time. The numbers stepped over on the way to
a later one are kept for a while; a number far beyond the last one is refused. No number is
taken twice, and none is lost that stays within reach and is asked for in time.
-/

namespace MerkleTox.Library

/-- `reached` is the greatest number taken so far; `kept` has the time at which a smaller one
was stepped over. -/
@[ext]
structure Dispenser where
  reached : Option Nat
  kept : Nat → Option Int
  kept_of_lt : ∀ number, reached.getD 0 < number → kept number = none

structure Request where
  number : Nat
  time : Int
  deriving DecidableEq, Repr

namespace Dispenser

def new : Dispenser := ⟨none, fun _ => none, fun _ _ => rfl⟩

/-- The least number that was not stepped over. -/
def next (dispenser : Dispenser) : Nat := dispenser.reached.getD 0 + 1

/-- The greatest number within reach. -/
def limit (span : Nat) (dispenser : Dispenser) : Nat :=
  match dispenser.reached with
  | none => span
  | some number => number + 1 + span

def expire (lifetime : Int) (dispenser : Dispenser) (now : Int) : Dispenser where
  reached := dispenser.reached
  kept number := (dispenser.kept number).filter fun time => now - time ≤ lifetime
  kept_of_lt number hlt := by rw [dispenser.kept_of_lt number hlt, Option.filter_none]

/-- Take a number that was stepped over. -/
def erase (dispenser : Dispenser) (number : Nat) : Dispenser where
  reached := dispenser.reached
  kept := Function.update dispenser.kept number none
  kept_of_lt other hlt := by
    rw [Function.update_apply]
    split
    · rfl
    · exact dispenser.kept_of_lt other hlt

/-- Take a number that is ahead. -/
def advance (dispenser : Dispenser) (request : Request)
    (hahead : dispenser.next ≤ request.number) : Dispenser where
  reached := some request.number
  kept number :=
    if dispenser.next ≤ number ∧ number < request.number then some request.time
    else dispenser.kept number
  kept_of_lt number hlt := by
    rw [Option.getD_some] at hlt
    rw [if_neg fun hbetween => absurd hbetween.2 (Nat.lt_asymm hlt)]
    exact dispenser.kept_of_lt number (Nat.lt_of_lt_of_le hahead (Nat.le_of_lt hlt))

/-- Take a number, if it can be had. -/
def take (span : Nat) (lifetime : Int) (dispenser : Dispenser) (request : Request) :
    Bool × Dispenser :=
  let alive := dispenser.expire lifetime request.time
  if hahead : alive.next ≤ request.number then
    if alive.limit span < request.number then (false, alive)
    else (true, alive.advance request hahead)
  else ((alive.kept request.number).isSome, alive.erase request.number)

/-- The numbers that were had, in the order in which they were. -/
def taken (span : Nat) (lifetime : Int) : Dispenser → List Request → List Nat
  | _, [] => []
  | dispenser, request :: rest =>
      (if (dispenser.take span lifetime request).1 then [request.number] else []) ++
        taken span lifetime (dispenser.take span lifetime request).2 rest

variable {span : Nat} {lifetime : Int} {dispenser : Dispenser} {request : Request}

@[simp]
theorem next_expire (now : Int) : (dispenser.expire lifetime now).next = dispenser.next := rfl

theorem kept_expire (dispenser : Dispenser) (now : Int) (number : Nat) :
    (dispenser.expire lifetime now).kept number =
      (dispenser.kept number).filter fun time => now - time ≤ lifetime := rfl

theorem kept_erase (dispenser : Dispenser) (number other : Nat) :
    (dispenser.erase number).kept other = Function.update dispenser.kept number none other := rfl

theorem kept_advance (dispenser : Dispenser) (request : Request)
    (hahead : dispenser.next ≤ request.number) (number : Nat) :
    (dispenser.advance request hahead).kept number =
      if dispenser.next ≤ number ∧ number < request.number then some request.time
      else dispenser.kept number := rfl

variable {number : Nat} {requests : List Request}

theorem kept_expire_of_none (lifetime now : Int) (h : dispenser.kept number = none) :
    (dispenser.expire lifetime now).kept number = none := by
  rw [kept_expire, h, Option.filter_none]

theorem erase_of_none (h : dispenser.kept number = none) : dispenser.erase number = dispenser :=
  Dispenser.ext rfl ((congrArg (Function.update dispenser.kept number) h.symm).trans
    (Function.update_eq_self number dispenser.kept))

/-- What can happen to a request. -/
theorem take_cases (span : Nat) (lifetime : Int) (dispenser : Dispenser) (request : Request) :
    (request.number < dispenser.next ∧ dispenser.take span lifetime request =
      (((dispenser.expire lifetime request.time).kept request.number).isSome,
        (dispenser.expire lifetime request.time).erase request.number)) ∨
    (dispenser.next ≤ request.number ∧ dispenser.limit span < request.number ∧
      dispenser.take span lifetime request = (false, dispenser.expire lifetime request.time)) ∨
    ∃ hahead : (dispenser.expire lifetime request.time).next ≤ request.number,
      request.number ≤ dispenser.limit span ∧
      dispenser.take span lifetime request =
        (true, (dispenser.expire lifetime request.time).advance request hahead) := by
  by_cases hahead : dispenser.next ≤ request.number
  · by_cases hlimit : dispenser.limit span < request.number
    · exact .inr (.inl ⟨hahead, hlimit, (dif_pos hahead).trans (if_pos hlimit)⟩)
    · exact .inr (.inr ⟨hahead, Nat.not_lt.mp hlimit, (dif_pos hahead).trans (if_neg hlimit)⟩)
  · exact .inl ⟨Nat.not_le.mp hahead, dif_neg hahead⟩

/-! ## No number twice -/

/-- The number is neither kept nor still ahead. -/
structure Gone (dispenser : Dispenser) (number : Nat) : Prop where
  behind : number < dispenser.next
  notKept : dispenser.kept number = none

theorem Gone.take (h : dispenser.Gone number) :
    (dispenser.take span lifetime request).2.Gone number := by
  have hexpired := kept_expire_of_none lifetime request.time h.notKept
  obtain ⟨-, heq⟩ | ⟨-, -, heq⟩ | ⟨hahead, -, heq⟩ := take_cases span lifetime dispenser request
  · rw [heq]
    refine ⟨h.behind, ?_⟩
    rw [kept_erase, Function.update_apply]
    split
    · rfl
    · exact hexpired
  · rw [heq]
    exact ⟨h.behind, hexpired⟩
  · rw [heq]
    refine ⟨Nat.lt_succ_of_le (Nat.le_of_lt (Nat.lt_of_lt_of_le h.behind hahead)), ?_⟩
    dsimp only
    rw [kept_advance, if_neg fun hbetween => absurd h.behind (Nat.not_lt.mpr hbetween.1)]
    exact hexpired

theorem Gone.not_take (h : dispenser.Gone request.number) :
    (dispenser.take span lifetime request).1 = false := by
  obtain ⟨-, heq⟩ | ⟨hahead, -⟩ | ⟨hahead, -⟩ := take_cases span lifetime dispenser request
  · rw [heq, kept_expire_of_none lifetime request.time h.notKept]
    rfl
  · exact absurd h.behind (Nat.not_lt.mpr hahead)
  · exact absurd h.behind (Nat.not_lt.mpr hahead)

/-- What was taken is gone. -/
theorem gone_of_take (htake : (dispenser.take span lifetime request).1 = true) :
    (dispenser.take span lifetime request).2.Gone request.number := by
  obtain ⟨hbehind, heq⟩ | ⟨-, -, heq⟩ | ⟨hahead, -, heq⟩ :=
    take_cases span lifetime dispenser request
  · rw [heq]
    exact ⟨hbehind, Function.update_self ..⟩
  · rw [heq] at htake
    cases htake
  · rw [heq]
    refine ⟨Nat.lt_succ_self _, ?_⟩
    dsimp only
    rw [kept_advance, if_neg fun hbetween => absurd hbetween.2 (Nat.lt_irrefl _)]
    exact kept_of_lt _ _ hahead

theorem Gone.notMem_taken (h : dispenser.Gone number) :
    number ∉ dispenser.taken span lifetime requests := by
  induction requests generalizing dispenser with
  | nil => exact List.not_mem_nil
  | cons request rest ih =>
      rw [taken, List.mem_append, not_or]
      refine ⟨?_, ih h.take⟩
      split
      next htake =>
        rintro hmem
        rw [List.mem_singleton] at hmem
        subst hmem
        rw [h.not_take] at htake
        cases htake
      next => exact List.not_mem_nil

/-- Each number is had once at most. -/
theorem nodup_taken (span : Nat) (lifetime : Int) (dispenser : Dispenser)
    (requests : List Request) :
    (dispenser.taken span lifetime requests).Nodup := by
  induction requests generalizing dispenser with
  | nil => exact List.nodup_nil
  | cons request rest ih =>
      rw [taken]
      split
      next htake => exact List.nodup_cons.mpr ⟨(gone_of_take htake).notMem_taken, ih _⟩
      next => exact ih _

/-! ## No number lost -/

def highest (requests : List Request) : Nat :=
  requests.foldl (fun highest request => max highest request.number) 0

theorem highest_append (requests : List Request) (request : Request) :
    highest (requests ++ [request]) = max (highest requests) request.number :=
  List.foldl_append

theorem number_le_highest (hmem : request ∈ requests) : request.number ≤ highest requests := by
  induction requests using List.reverseRecOn with
  | nil => cases hmem
  | append_singleton requests last ih =>
      rw [highest_append]
      rcases List.mem_append.mp hmem with hmem | hmem
      · exact Nat.le_trans (ih hmem) (Nat.le_max_left _ _)
      · rw [List.mem_singleton.mp hmem]
        exact Nat.le_max_right _ _

/-- A request comes within reach of those before it, and if one of them stepped over it, the
time since then is within the lifetime at that of each later one. -/
structure InTime (span : Nat) (lifetime : Int) (before : List Request) (request : Request) :
    Prop where
  positive : 0 < request.number
  new : request.number ∉ before.map Request.number
  first : before = [] → request.number ≤ span
  reach : before ≠ [] → request.number ≤ highest before + 1 + span
  alive : ∀ earlier step later, before = earlier ++ step :: later →
    highest earlier < request.number → request.number < step.number →
    ∀ other ∈ later ++ [request], other.time - step.time ≤ lifetime

/-- What is left of requests that were all met. -/
structure Follows (lifetime : Int) (dispenser : Dispenser) (before : List Request) : Prop where
  reached : dispenser.reached = if before = [] then none else some (highest before)
  kept : ∀ earlier step later number, before = earlier ++ step :: later →
    highest earlier < number → number < step.number → number ∉ later.map Request.number →
    (∀ other ∈ later, other.time - step.time ≤ lifetime) →
    dispenser.kept number = some step.time

theorem follows_new : Follows lifetime new [] :=
  ⟨rfl, fun _ _ _ _ hbefore => absurd hbefore.symm (by simp)⟩

/-- A number below the highest one that was not asked for was stepped over. -/
theorem exists_step {before : List Request} (hpositive : 0 < number)
    (hnew : number ∉ before.map Request.number) (hle : number ≤ highest before) :
    ∃ earlier step later, before = earlier ++ step :: later ∧ highest earlier < number ∧
      number < step.number := by
  induction before using List.reverseRecOn with
  | nil => exact absurd hpositive (Nat.not_lt.mpr hle)
  | append_singleton before last ih =>
      rw [List.map_append, List.mem_append, not_or] at hnew
      rcases Nat.lt_or_ge (highest before) number with hlt | hge
      · rw [highest_append] at hle
        have hne : number ≠ last.number := fun heq => hnew.2 (heq ▸ List.mem_cons_self)
        exact ⟨before, last, [], rfl, hlt, by omega⟩
      · obtain ⟨earlier, step, later, rfl, hstep⟩ := ih hnew.1 hge
        exact ⟨earlier, step, later ++ [last], by simp, hstep⟩

namespace Follows

variable {before : List Request}

section

variable (h : Follows lifetime dispenser before)
include h

theorem next_eq :
    dispenser.next = highest before + 1 := by
  rw [next, h.reached]
  split
  next hnil => rw [hnil]; rfl
  next => rfl

section

variable (hrequest : InTime span lifetime before request)
include hrequest

theorem le_limit :
    request.number ≤ dispenser.limit span := by
  rw [limit, h.reached]
  by_cases hnil : before = []
  · rw [if_pos hnil]
    exact hrequest.first hnil
  · rw [if_neg hnil]
    exact hrequest.reach hnil

theorem kept_of_le (hle : request.number ≤ highest before) :
    ((dispenser.expire lifetime request.time).kept request.number).isSome = true := by
  obtain ⟨earlier, step, later, hbefore, hearlier, hstep⟩ :=
    exists_step hrequest.positive hrequest.new hle
  have halive := hrequest.alive earlier step later hbefore hearlier hstep
  have hlater : request.number ∉ later.map Request.number := by
    intro hmem
    refine hrequest.new ?_
    rw [hbefore, List.map_append, List.map_cons]
    exact List.mem_append_right _ (List.mem_cons_of_mem _ hmem)
  have hkept := h.kept earlier step later request.number hbefore hearlier hstep hlater
    fun other hother => halive other (List.mem_append_left _ hother)
  rw [kept_expire, hkept, Option.filter_some, if_pos]
  · rfl
  · exact decide_eq_true (halive request (List.mem_append_right _ List.mem_cons_self))

/-- A request in time is met. -/
theorem take :
    (dispenser.take span lifetime request).1 = true := by
  have hnext := h.next_eq
  obtain ⟨hbehind, heq⟩ | ⟨-, hlimit, -⟩ | ⟨_, -, heq⟩ :=
    take_cases span lifetime dispenser request
  · rw [heq]
    exact h.kept_of_le hrequest (by omega)
  · exact absurd (h.le_limit hrequest) (Nat.not_le.mpr hlimit)
  · rw [heq]

theorem reached_take :
    (dispenser.take span lifetime request).2.reached = some (highest (before ++ [request])) := by
  have hnext := h.next_eq
  have hpositive := hrequest.positive
  obtain ⟨hbehind, heq⟩ | ⟨-, hlimit, -⟩ | ⟨hahead, -, heq⟩ :=
    take_cases span lifetime dispenser request
  · have hbefore : before ≠ [] := by
      rintro rfl
      exact absurd hbehind (by rw [hnext, highest, List.foldl_nil]; omega)
    have hreached := h.reached
    rw [if_neg hbefore] at hreached
    have hmax : max (highest before) request.number = highest before := by omega
    rw [heq, highest_append, hmax]
    exact hreached
  · exact absurd (h.le_limit hrequest) (Nat.not_le.mpr hlimit)
  · have hmax : max (highest before) request.number = request.number := by
      rw [next_expire] at hahead
      omega
    rw [heq, highest_append, hmax]
    rfl

end

/-- A number that was stepped over stays, unless it is asked for or the time is over. -/
theorem kept_take {earlier later : List Request} {step : Request} {number : Nat}
    (hbefore : before = earlier ++ step :: later) (hearlier : highest earlier < number)
    (hstep : number < step.number) (hlater : number ∉ (later ++ [request]).map Request.number)
    (halive : ∀ other ∈ later ++ [request], other.time - step.time ≤ lifetime) :
    (dispenser.take span lifetime request).2.kept number = some step.time := by
  have hnext := h.next_eq
  have hhighest : step.number ≤ highest before :=
    number_le_highest (hbefore ▸ List.mem_append_right _ List.mem_cons_self)
  rw [List.map_append, List.mem_append, not_or] at hlater
  have hexpired : (dispenser.expire lifetime request.time).kept number = some step.time := by
    rw [kept_expire, h.kept earlier step later number hbefore hearlier hstep hlater.1
      fun other hother => halive other (List.mem_append_left _ hother), Option.filter_some, if_pos]
    exact decide_eq_true (halive request (List.mem_append_right _ List.mem_cons_self))
  obtain ⟨-, heq⟩ | ⟨-, -, heq⟩ | ⟨_, -, heq⟩ := take_cases span lifetime dispenser request
  · have hne : number ≠ request.number := fun hsame => hlater.2 (hsame ▸ List.mem_cons_self)
    rw [heq, kept_erase, Function.update_of_ne hne]
    exact hexpired
  · rw [heq]
    exact hexpired
  · rw [heq]
    dsimp only
    rw [kept_advance, next_expire, if_neg (by omega)]
    exact hexpired

theorem kept_advance (hrequest : InTime span lifetime before request) {number : Nat}
    (hbefore : highest before < number) (hnumber : number < request.number) :
    (dispenser.take span lifetime request).2.kept number = some request.time := by
  have hnext := h.next_eq
  obtain ⟨hbehind, -⟩ | ⟨-, hlimit, -⟩ | ⟨_, -, heq⟩ :=
    take_cases span lifetime dispenser request
  · omega
  · exact absurd (h.le_limit hrequest) (Nat.not_le.mpr hlimit)
  · rw [heq]
    dsimp only
    rw [Dispenser.kept_advance, next_expire, if_pos (by omega)]

theorem step (hrequest : InTime span lifetime before request) :
    Follows lifetime (dispenser.take span lifetime request).2 (before ++ [request]) := by
  refine ⟨?_, fun earlier step later number hsplit hearlier hstep hlater halive => ?_⟩
  · rw [h.reached_take hrequest, if_neg (by simp)]
  · rcases List.eq_nil_or_concat later with rfl | ⟨later, last, rfl⟩
    · obtain ⟨rfl, hlast⟩ := List.append_inj' hsplit rfl
      cases hlast
      exact h.kept_advance hrequest hearlier hstep
    · rw [List.concat_eq_append, ← List.cons_append, ← List.append_assoc] at hsplit
      obtain ⟨hbefore, hlast⟩ := List.append_inj' hsplit rfl
      cases hlast
      rw [List.concat_eq_append] at hlater halive
      exact h.kept_take hbefore hearlier hstep hlater halive

theorem taken {rest : List Request}
    (hrest : ∀ met request after, rest = met ++ request :: after →
      InTime span lifetime (before ++ met) request) :
    dispenser.taken span lifetime rest = rest.map Request.number := by
  induction rest generalizing dispenser before with
  | nil => rfl
  | cons request rest ih =>
      have hrequest := hrest [] request rest rfl
      rw [List.append_nil] at hrequest
      rw [Dispenser.taken, h.take hrequest, if_pos rfl, List.map_cons, List.singleton_append]
      refine congrArg _ (ih (h.step hrequest) fun met other after hsplit => ?_)
      rw [List.append_assoc, List.singleton_append]
      exact hrest (request :: met) other after (by rw [hsplit, List.cons_append])

end

end Follows

/-- All requests are met, in whatever order they come, if each one comes in time. -/
theorem taken_of_inTime (h : ∀ before request after, requests = before ++ request :: after →
      InTime span lifetime before request) :
    new.taken span lifetime requests = requests.map Request.number :=
  follows_new.taken h

end Dispenser

end MerkleTox.Library
