import Mathlib.Data.List.Basic

/-! # Values of delegation chains

A device holds links, each issued by a device, and a master device holds everything.
The value of a chain of links is that of its first link combined with the rest of the
chain, and the value of a device is the join of the values of its chains. The join is
given by an operation on values that is associative, commutative and idempotent; one
value lies below another if joining them gives the other.
-/

namespace MerkleTox.Library

universe uElement uDevice uLink uValue

variable {Element : Type uElement} {Value : Type uValue}

/-- Combine an optional accumulated value with one more. -/
def combine (merge : Value → Value → Value) (best : Option Value) (value : Option Value) :
    Option Value :=
  match best, value with
  | some best, some value => some (merge best value)
  | none, some value => some value
  | best, none => best

variable {f : Element → Option Value} {merge : Value → Value → Value}
variable {best : Option Value} {list : List Element}

/-- Only elements with a value contribute to a combination. -/
theorem exists_of_foldl_combine {value : Value}
    (h : list.foldl (fun best element => combine merge best (f element)) best = some value) :
    best.isSome ∨ ∃ element ∈ list, (f element).isSome := by
  induction list generalizing best with
  | nil => exact .inl (Option.isSome_iff_exists.mpr ⟨value, h⟩)
  | cons element rest ih =>
      rcases ih h with hbest | ⟨other, hmem, hother⟩
      · cases hvalue : f element with
        | some value => exact .inr ⟨element, List.mem_cons_self, hvalue ▸ rfl⟩
        | none =>
            simp only [hvalue] at hbest
            cases best with
            | none => cases hbest
            | some best => exact .inl rfl
      · exact .inr ⟨other, List.mem_cons_of_mem _ hmem, hother⟩

/-- An element with a value gives the combination one. -/
theorem isSome_foldl_combine (h : best.isSome ∨ ∃ element ∈ list, (f element).isSome) :
    (list.foldl (fun best element => combine merge best (f element)) best).isSome := by
  induction list generalizing best with
  | nil =>
      rcases h with hbest | ⟨_, hmem, _⟩
      · exact hbest
      · cases hmem
  | cons head rest ih =>
      refine ih ?_
      simp only
      rcases h with hbest | ⟨element, hmem, hsome⟩
      · left
        obtain ⟨value, rfl⟩ := Option.isSome_iff_exists.mp hbest
        cases hhead : f head <;> rfl
      · rcases List.mem_cons.mp hmem with rfl | hmem
        · left
          obtain ⟨value, hvalue⟩ := Option.isSome_iff_exists.mp hsome
          rw [hvalue]
          cases best <;> rfl
        · exact .inr ⟨element, hmem, hsome⟩

/-- Elements that are passed over do not matter. -/
theorem foldl_combine_filter (keep : Element → Bool) (list : List Element) (best : Option Value) :
    list.foldl (fun best element =>
        combine merge best (if !keep element then none else f element)) best =
      (list.filter keep).foldl (fun best element => combine merge best (f element)) best := by
  induction list generalizing best with
  | nil => rfl
  | cons element rest ih =>
      rw [List.foldl_cons, ih, List.filter_cons]
      cases hkeep : keep element with
      | true => simp
      | false => cases best <;> simp [combine]

/-- If joining selects one of two values, a combination is one of its values. -/
theorem mem_of_foldl_combine
    (hselect : ∀ left right, merge left right = left ∨ merge left right = right) {value : Value}
    (h : list.foldl (fun best element => combine merge best (f element)) best = some value) :
    best = some value ∨ ∃ element ∈ list, f element = some value := by
  induction list generalizing best with
  | nil => exact .inl h
  | cons element rest ih =>
      rcases ih h with hcombined | ⟨other, hmem, hother⟩
      · simp only at hcombined
        cases hvalue : f element with
        | none =>
            rw [hvalue] at hcombined
            cases best with
            | none => cases hcombined
            | some best => exact .inl hcombined
        | some new =>
            rw [hvalue] at hcombined
            cases best with
            | none => exact .inr ⟨element, List.mem_cons_self, hvalue.trans hcombined⟩
            | some best =>
                rcases hselect best new with hold | hnew
                · refine .inl ?_
                  rw [← hcombined, combine, hold]
                · refine .inr ⟨element, List.mem_cons_self, ?_⟩
                  rw [hvalue, ← hcombined, combine, hnew]
      · exact .inr ⟨other, List.mem_cons_of_mem _ hmem, hother⟩

/-- The laws of a join. -/
structure IsJoin (merge : Value → Value → Value) : Prop where
  comm : ∀ left right, merge left right = merge right left
  assoc : ∀ first second third,
    merge (merge first second) third = merge first (merge second third)
  idem : ∀ value, merge value value = value

/-- The second value, if it is there, includes the first. -/
def Below (merge : Value → Value → Value) (first second : Option Value) : Prop :=
  ∀ value, first = some value → ∃ larger, second = some larger ∧ merge value larger = larger

section Join

variable {merge : Value → Value → Value}

theorem Below.refl (hjoin : IsJoin merge) (value : Option Value) : Below merge value value :=
  fun value heq => ⟨value, heq, hjoin.idem value⟩

section

variable {first second : Option Value} (hjoin : IsJoin merge) (hfirst : Below merge first second)
include hjoin hfirst

theorem Below.trans {third : Option Value} (hsecond : Below merge second third) :
    Below merge first third := by
  intro value hvalue
  obtain ⟨middle, hmiddle, hle⟩ := hfirst value hvalue
  obtain ⟨larger, hlarger, hle'⟩ := hsecond middle hmiddle
  refine ⟨larger, hlarger, ?_⟩
  rw [← hle', ← hjoin.assoc, hle]

theorem Below.antisymm (hsecond : Below merge second first) :
    first = second := by
  cases first with
  | none =>
      cases second with
      | none => rfl
      | some value =>
          obtain ⟨_, h, _⟩ := hsecond value rfl
          cases h
  | some value =>
      obtain ⟨larger, rfl, hle⟩ := hfirst value rfl
      obtain ⟨other, heq, hle'⟩ := hsecond larger rfl
      cases heq
      rw [← hle, hjoin.comm, hle']

end

theorem below_combine_left (hjoin : IsJoin merge) (best value : Option Value) :
    Below merge best (combine merge best value) := by
  intro old hold
  subst hold
  cases value with
  | none => exact ⟨old, rfl, hjoin.idem old⟩
  | some value =>
      refine ⟨merge old value, rfl, ?_⟩
      rw [← hjoin.assoc, hjoin.idem]

theorem below_combine_right (hjoin : IsJoin merge) (best value : Option Value) :
    Below merge value (combine merge best value) := by
  intro new hnew
  subst hnew
  cases best with
  | none => exact ⟨new, rfl, hjoin.idem new⟩
  | some best =>
      refine ⟨merge best new, rfl, ?_⟩
      rw [hjoin.comm best new, ← hjoin.assoc, hjoin.idem]

theorem combine_below (hjoin : IsJoin merge) {best value upper : Option Value}
    (hbest : Below merge best upper) (hvalue : Below merge value upper) :
    Below merge (combine merge best value) upper := by
  cases best with
  | none =>
      cases value with
      | none => exact hbest
      | some value => exact hvalue
  | some best =>
      cases value with
      | none => exact hbest
      | some value =>
          intro joined hjoined
          cases hjoined
          obtain ⟨larger, rfl, hle⟩ := hbest best rfl
          obtain ⟨other, heq, hle'⟩ := hvalue value rfl
          cases heq
          refine ⟨larger, rfl, ?_⟩
          rw [hjoin.assoc, hle', hle]

variable {list : List Element}

/-- A combination is an upper bound of its values. -/
theorem below_foldl_combine (hjoin : IsJoin merge) (best : Option Value) :
    Below merge best (list.foldl (fun best element => combine merge best (f element)) best) ∧
      ∀ element ∈ list, Below merge (f element)
        (list.foldl (fun best element => combine merge best (f element)) best) := by
  induction list generalizing best with
  | nil => exact ⟨.refl hjoin best, fun _ hmem => nomatch hmem⟩
  | cons head rest ih =>
      obtain ⟨hbest, hrest⟩ := ih (combine merge best (f head))
      refine ⟨(below_combine_left hjoin best (f head)).trans hjoin hbest, ?_⟩
      intro element hmem
      rcases List.mem_cons.mp hmem with rfl | hmem
      · exact (below_combine_right hjoin best (f element)).trans hjoin hbest
      · exact hrest element hmem

/-- It is the least upper bound. -/
theorem foldl_combine_below (hjoin : IsJoin merge) {best upper : Option Value}
    (hbest : Below merge best upper) (hlist : ∀ element ∈ list, Below merge (f element) upper) :
    Below merge (list.foldl (fun best element => combine merge best (f element)) best) upper := by
  induction list generalizing best with
  | nil => exact hbest
  | cons head rest ih =>
      refine ih (combine_below hjoin hbest (hlist head List.mem_cons_self)) ?_
      exact fun element hmem => hlist element (List.mem_cons_of_mem _ hmem)

end Join

/-! ## Chains -/

/-- How links are valued; `isMaster` marks the devices that hold everything. -/
structure Delegation (Device : Type uDevice) (Link : Type uLink) (Value : Type uValue) where
  isMaster : Device → Bool
  issuer : Link → Device
  top : Value
  leaf : Link → Value
  extend : Link → Value → Value
  merge : Value → Value → Value

namespace Delegation

variable {Device : Type uDevice} {Link : Type uLink}

/-- The value of a chain that starts with a link, given the value of its issuer. -/
def linkValue (delegation : Delegation Device Link Value) (issuerValue : Option Value)
    (link : Link) : Option Value :=
  if delegation.isMaster (delegation.issuer link) then some (delegation.leaf link)
  else issuerValue.map (delegation.extend link)

/-- The value of a device; the first argument bounds the length of chains. -/
def value (delegation : Delegation Device Link Value) (links : Device → List Link) :
    Nat → Device → Option Value
  | 0, _ => none
  | depth + 1, device =>
      if delegation.isMaster device then some delegation.top
      else
        (links device).foldl
          (fun best link => combine delegation.merge best (delegation.linkValue
            (delegation.value links depth (delegation.issuer link)) link))
          none

variable {delegation : Delegation Device Link Value}

/-- The links that the value of a device is made of: its own, unless it is a master device,
and those that the value of their issuers is made of. -/
inductive Uses (isMaster : Device → Bool) (issuer : Link → Device) (links : Device → List Link) :
    Device → Device → Link → Prop
  | own {device : Device} {link : Link} (hdevice : isMaster device = false)
      (hmem : link ∈ links device) : Uses isMaster issuer links device device link
  | issuer {device holder : Device} {link used : Link} (hdevice : isMaster device = false)
      (hmem : link ∈ links device) (hrest : Uses isMaster issuer links (issuer link) holder used) :
      Uses isMaster issuer links device holder used

theorem Uses.mem {isMaster : Device → Bool} {issuer : Link → Device} {links : Device → List Link}
    {device holder : Device} {link : Link} (h : Uses isMaster issuer links device holder link) :
    link ∈ links holder := by
  induction h with
  | own _ hmem => exact hmem
  | issuer _ _ _ ih => exact ih

/-- A device gets no more than before if it was given the links that its value is made of. -/
theorem value_mono (hjoin : IsJoin delegation.merge)
    (hextend : ∀ link first second, delegation.merge first second = second →
      delegation.merge (delegation.extend link first) (delegation.extend link second) =
        delegation.extend link second)
    {fewer more : Device → List Link} (depth : Nat) (device : Device)
    (hlinks : ∀ holder link,
      Uses delegation.isMaster delegation.issuer fewer device holder link → link ∈ more holder) :
    Below delegation.merge (delegation.value fewer depth device)
      (delegation.value more depth device) := by
  induction depth generalizing device with
  | zero => exact .refl hjoin none
  | succ depth ih =>
      unfold value
      split
      · exact .refl hjoin _
      next hdevice =>
        rw [Bool.not_eq_true] at hdevice
        refine foldl_combine_below hjoin (fun _ h => nomatch h) fun link hmem => ?_
        refine Below.trans hjoin ?_
          ((below_foldl_combine hjoin none).2 link (hlinks device link (.own hdevice hmem)))
        unfold linkValue
        split
        · exact .refl hjoin _
        · intro value hvalue
          obtain ⟨below, hbelow, rfl⟩ := Option.map_eq_some_iff.mp hvalue
          have hissuer := ih (delegation.issuer link) fun holder used hused =>
            hlinks holder used (.issuer hdevice hmem hused)
          obtain ⟨larger, hlarger, hle⟩ := hissuer below hbelow
          exact ⟨delegation.extend link larger, by rw [hlarger]; rfl, hextend link _ _ hle⟩

/-- The same links give the same, whatever their order. -/
theorem value_congr (hjoin : IsJoin delegation.merge)
    (hextend : ∀ link first second, delegation.merge first second = second →
      delegation.merge (delegation.extend link first) (delegation.extend link second) =
        delegation.extend link second)
    {first second : Device → List Link}
    (hlinks : ∀ device link, link ∈ first device ↔ link ∈ second device)
    (depth : Nat) (device : Device) :
    delegation.value first depth device = delegation.value second depth device :=
  Below.antisymm hjoin
    (value_mono hjoin hextend depth device fun holder link h => (hlinks holder link).mp h.mem)
    (value_mono hjoin hextend depth device fun holder link h => (hlinks holder link).mpr h.mem)

/-! ## What chains show

A property of values that a join has exactly if one of its sides has it, and a chain exactly
if all its links have it, is decided by looking at chains of links.
-/

/-- A chain of links that leads from a device to a master device. -/
inductive Chain (delegation : Delegation Device Link Value) (links : Device → List Link) :
    Device → List Link → Prop
  | last {device : Device} {link : Link} (hmem : link ∈ links device)
      (hmaster : delegation.isMaster (delegation.issuer link) = true) :
      Chain delegation links device [link]
  | cons {device : Device} {link : Link} {rest : List Link} (hmem : link ∈ links device)
      (hrest : Chain delegation links (delegation.issuer link) rest) :
      Chain delegation links device (link :: rest)

/-- A value that has a property. -/
def Shows (shown : Value → Prop) (value : Option Value) : Prop :=
  ∃ found, value = some found ∧ shown found

/-- The property belongs to a join if to one of its sides, and to a chain if to all its
links. -/
structure IsShown (delegation : Delegation Device Link Value) (shown : Value → Prop) : Prop where
  merge : ∀ left right,
    shown (delegation.merge left right) ↔ shown left ∨ shown right
  extend : ∀ link value,
    shown (delegation.extend link value) ↔ shown (delegation.leaf link) ∧ shown value

/-- Every value shows what is true of all of them. -/
theorem isShown_true (delegation : Delegation Device Link Value) :
    delegation.IsShown fun _ => True := by
  constructor <;> simp

section Shows

variable {shown : Value → Prop}

@[simp]
theorem not_shows_none : ¬ Shows shown none := by
  rintro ⟨_, h, _⟩
  cases h

@[simp]
theorem shows_some {value : Value} : Shows shown (some value) ↔ shown value := by
  simp [Shows]

theorem shows_combine (hshown : delegation.IsShown shown) (best value : Option Value) :
    Shows shown (combine delegation.merge best value) ↔ Shows shown best ∨ Shows shown value := by
  cases best with
  | none => cases value <;> simp [combine]
  | some best =>
      cases value with
      | none => simp [combine]
      | some value => simpa [combine] using hshown.merge best value

theorem shows_foldl_combine (hshown : delegation.IsShown shown) (list : List Element)
    (best : Option Value) :
    Shows shown (list.foldl (fun best element => combine delegation.merge best (f element)) best) ↔
      Shows shown best ∨ ∃ element ∈ list, Shows shown (f element) := by
  induction list generalizing best with
  | nil => simp
  | cons head rest ih =>
      rw [List.foldl_cons, ih, shows_combine hshown, List.exists_mem_cons_iff, or_assoc]

theorem shows_linkValue (hshown : delegation.IsShown shown) (issuerValue : Option Value)
    (link : Link) :
    Shows shown (delegation.linkValue issuerValue link) ↔
      shown (delegation.leaf link) ∧
        (delegation.isMaster (delegation.issuer link) = true ∨ Shows shown issuerValue) := by
  unfold linkValue
  by_cases hmaster : delegation.isMaster (delegation.issuer link) = true
  · simp [hmaster]
  · cases issuerValue with
    | none => simp [hmaster]
    | some value => simpa [hmaster] using hshown.extend link value

theorem isSome_iff_shows {value : Option Value} : value.isSome ↔ Shows (fun _ => True) value := by
  cases value <;> simp

variable {links : Device → List Link}

theorem Chain.length_pos {device : Device} {chain : List Link}
    (h : delegation.Chain links device chain) : 0 < chain.length := by
  cases h <;> exact Nat.succ_pos _

/-- A device shows a property if and only if one of its chains within the bound shows it at
every link. -/
theorem shows_value_iff (hshown : delegation.IsShown shown) (depth : Nat) {device : Device}
    (hdevice : delegation.isMaster device = false) :
    Shows shown (delegation.value links depth device) ↔
      ∃ chain, delegation.Chain links device chain ∧ chain.length ≤ depth ∧
        ∀ link ∈ chain, shown (delegation.leaf link) := by
  induction depth generalizing device with
  | zero =>
      refine iff_of_false not_shows_none ?_
      rintro ⟨chain, hchain, hlength, -⟩
      exact absurd hchain.length_pos (Nat.not_lt.mpr hlength)
  | succ depth ih =>
      rw [value, if_neg (Bool.eq_false_iff.mp hdevice), shows_foldl_combine hshown]
      constructor
      · rintro (hnone | ⟨link, hmem, hlink⟩)
        · exact absurd hnone not_shows_none
        · obtain ⟨hleaf, hissuer⟩ := (shows_linkValue hshown _ link).mp hlink
          by_cases hmaster : delegation.isMaster (delegation.issuer link) = true
          · exact ⟨[link], .last hmem hmaster, Nat.succ_le_succ (Nat.zero_le depth),
              List.forall_mem_singleton.mpr hleaf⟩
          · have hvalue := hissuer.resolve_left hmaster
            obtain ⟨rest, hrest, hlength, hall⟩ := (ih (Bool.eq_false_iff.mpr hmaster)).mp hvalue
            exact ⟨link :: rest, .cons hmem hrest, Nat.succ_le_succ hlength,
              List.forall_mem_cons.mpr ⟨hleaf, hall⟩⟩
      · rintro ⟨chain, hchain, hlength, hall⟩
        right
        cases hchain with
        | last hmem hmaster =>
            exact ⟨_, hmem, (shows_linkValue hshown _ _).mpr
              ⟨hall _ List.mem_cons_self, .inl hmaster⟩⟩
        | cons hmem hrest =>
            rename_i link rest
            obtain ⟨hleaf, hrestAll⟩ := List.forall_mem_cons.mp hall
            refine ⟨link, hmem, (shows_linkValue hshown _ link).mpr ⟨hleaf, ?_⟩⟩
            -- a chain that passes through a master device already ends there
            by_cases hmaster : delegation.isMaster (delegation.issuer link) = true
            · exact .inl hmaster
            · refine .inr ((ih (Bool.eq_false_iff.mpr hmaster)).mpr ⟨rest, hrest, ?_, hrestAll⟩)
              exact Nat.le_of_succ_le_succ hlength

end Shows

end Delegation

end MerkleTox.Library
