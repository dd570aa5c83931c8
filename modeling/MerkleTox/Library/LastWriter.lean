import Mathlib.Data.List.Induction

/-! # Fields of a folded state

A fold over a list of events builds a state. Three shapes of a field recur: the last event
that speaks of the field decides it, the first one does, or an event counts only behind
another one that opens the field. Each shape has one lemma, from what a single step does to
what the whole fold does.
-/

namespace MerkleTox.Library

universe uState uEvent uValue

variable {State : Type uState} {Event : Type uEvent} {Value : Type uValue}

/-- What the last event that speaks tells. -/
def lastSome (tells : Event → Option Value) (events : List Event) : Option Value :=
  events.reverse.findSome? tells

theorem lastSome_append_singleton (tells : Event → Option Value) (events : List Event)
    (event : Event) :
    lastSome tells (events ++ [event]) = (tells event).or (lastSome tells events) := by
  unfold lastSome
  rw [List.reverse_append, List.reverse_singleton, List.singleton_append, List.findSome?_cons]
  cases tells event <;> rfl

variable {tells : Event → Option Value} {events : List Event}

theorem lastSome_isSome :
    (lastSome tells events).isSome ↔ ∃ event ∈ events, (tells event).isSome := by
  simp [lastSome]

/-- Two lists of the same events speak or are silent together, whatever their orders. -/
theorem lastSome_getD_inj {left right : List Event} (hsame : ∀ event, event ∈ left ↔ event ∈ right)
    (silent : Value) :
    (lastSome tells left).getD silent = (lastSome tells right).getD silent ↔
      lastSome tells left = lastSome tells right := by
  have hspeak : (lastSome tells left).isSome ↔ (lastSome tells right).isSome := by
    simp only [lastSome_isSome, hsame]
  cases hleft : lastSome tells left <;> cases hright : lastSome tells right <;>
    simp_all

/-- An event of the list that acts and stands behind one that opens. -/
def Follows (opens acts : Event → Bool) (events : List Event) : Prop :=
  ∃ first second, events = first ++ second ∧ (∃ event ∈ first, opens event = true) ∧
    ∃ event ∈ second, acts event = true

theorem not_follows {opens acts : Event → Bool} (hnone : ∀ event ∈ events, acts event = false) :
    ¬ Follows opens acts events := by
  rintro ⟨first, second, rfl, -, event, hmem, hacts⟩
  rw [hnone event (List.mem_append_right first hmem)] at hacts
  cases hacts

theorem follows_append_singleton {opens acts : Event → Bool} {event : Event} :
    Follows opens acts (events ++ [event]) ↔ Follows opens acts events ∨
      ((∃ earlier ∈ events, opens earlier = true) ∧ acts event = true) := by
  constructor
  · rintro ⟨first, second, heq, hopens, acting, hacting, hacts⟩
    rcases List.eq_nil_or_concat second with rfl | ⟨before, last, rfl⟩
    · exact absurd hacting List.not_mem_nil
    rw [List.concat_eq_append, ← List.append_assoc] at heq
    obtain ⟨rfl, hlast⟩ := List.append_inj' heq rfl
    obtain rfl := List.singleton_inj.mp hlast
    rw [List.concat_eq_append, List.mem_append, List.mem_singleton] at hacting
    rcases hacting with hbefore | rfl
    · exact .inl ⟨first, before, rfl, hopens, acting, hbefore, hacts⟩
    · obtain ⟨earlier, hearlier, hopen⟩ := hopens
      exact .inr ⟨⟨earlier, List.mem_append_left _ hearlier, hopen⟩, hacts⟩
  · rintro (⟨first, second, rfl, hopens, acting, hacting, hacts⟩ | ⟨hopens, hacts⟩)
    · exact ⟨first, second ++ [event], by rw [List.append_assoc], hopens, acting,
        List.mem_append_left _ hacting, hacts⟩
    · exact ⟨events, [event], rfl, hopens, event, List.mem_singleton_self _, hacts⟩

variable (step : State → Event → State)

/-- A field that an event sets or leaves alone holds what the last event tells. -/
theorem foldl_lastSome (field : State → Value) (tells : Event → Option Value)
    (hstep : ∀ state event, field (step state event) = (tells event).getD (field state))
    (state : State) (events : List Event) :
    field (events.foldl step state) = (lastSome tells events).getD (field state) := by
  induction events using List.reverseRecOn with
  | nil => rfl
  | append_singleton events event ih =>
      rw [List.foldl_append, List.foldl_cons, List.foldl_nil, hstep, ih,
        lastSome_append_singleton]
      cases tells event <;> rfl

/-- The same for a field that may be empty. -/
theorem foldl_lastSome_or (field : State → Option Value) (tells : Event → Option Value)
    (hstep : ∀ state event, field (step state event) = (tells event).or (field state))
    (state : State) (events : List Event) :
    field (events.foldl step state) = (lastSome tells events).or (field state) := by
  induction events using List.reverseRecOn with
  | nil => rfl
  | append_singleton events event ih =>
      rw [List.foldl_append, List.foldl_cons, List.foldl_nil, hstep, ih,
        lastSome_append_singleton, Option.or_assoc]

/-- A field that an event sets only while it is empty holds what the first event tells. -/
theorem foldl_findSome (field : State → Option Value) (tells : Event → Option Value)
    (hstep : ∀ state event, field (step state event) = (field state).or (tells event))
    (state : State) (events : List Event) :
    field (events.foldl step state) = (field state).or (events.findSome? tells) := by
  induction events generalizing state with
  | nil => exact (Option.or_none).symm
  | cons event rest ih =>
      rw [List.foldl_cons, ih, hstep, List.findSome?_cons, Option.or_assoc]
      cases tells event <;> rfl

/-- A field that collects what the events say, in their order. -/
theorem foldl_filterMap (field : State → List Value) (tells : Event → Option Value)
    (hstep : ∀ state event, field (step state event) = field state ++ (tells event).toList)
    (state : State) (events : List Event) :
    field (events.foldl step state) = field state ++ events.filterMap tells := by
  induction events generalizing state with
  | nil => exact (List.append_nil _).symm
  | cons event rest ih =>
      rw [List.foldl_cons, ih, hstep, List.append_assoc, List.filterMap_cons]
      cases tells event <;> rfl

/-- A flag that an event raises once another has opened it. -/
theorem foldl_follows (opened flag : State → Bool) (opens acts : Event → Bool)
    (hopened : ∀ state event, opened (step state event) = (opened state || opens event))
    (hflag : ∀ state event, flag (step state event) = (flag state || opened state && acts event))
    (state : State) (hclosed : opened state = false) (hlowered : flag state = false)
    (events : List Event) :
    flag (events.foldl step state) = true ↔ Follows opens acts events := by
  have hopen : ∀ events : List Event, opened (events.foldl step state) = true ↔
      ∃ event ∈ events, opens event = true := by
    intro events
    induction events using List.reverseRecOn with
    | nil => simp [hclosed]
    | append_singleton events event ih =>
        rw [List.foldl_append, List.foldl_cons, List.foldl_nil, hopened, Bool.or_eq_true, ih]
        simp [or_and_right, exists_or]
  induction events using List.reverseRecOn with
  | nil => simp [hlowered, not_follows]
  | append_singleton events event ih =>
      rw [List.foldl_append, List.foldl_cons, List.foldl_nil, hflag, Bool.or_eq_true,
        Bool.and_eq_true]
      exact (or_congr ih (and_congr (hopen events) Iff.rfl)).trans follows_append_singleton.symm

end MerkleTox.Library
