import Mathlib.Algebra.GroupWithZero.Nat
import Mathlib.Data.List.Induction
import Mathlib.Data.List.Nodup
import Mathlib.Data.List.Sigma

/-! # Associative maps in insertion order

A map is a list of entries with pairwise distinct keys, kept in the order in
which the keys were first inserted. Inserting a present key replaces its value
in place. The distinctness of the keys is a field, so a lookup may be read
through membership and an erasure through the lookup.
-/

namespace MerkleTox.Library

universe uKey uValue

/-- A finite map as its list of entries, oldest key first. -/
@[ext]
structure AssocMap (Key : Type uKey) (Value : Type uValue) where
  entries : List (Key × Value)
  nodupKeys : (entries.map Prod.fst).Nodup

namespace AssocMap

variable {Key : Type uKey} {Value : Type uValue}

def empty : AssocMap Key Value := ⟨[], List.nodup_nil⟩

instance : Inhabited (AssocMap Key Value) := ⟨empty⟩

def size (map : AssocMap Key Value) : Nat := map.entries.length

def isEmpty (map : AssocMap Key Value) : Bool := map.entries.isEmpty

def keys (map : AssocMap Key Value) : List Key := map.entries.map Prod.fst

def values (map : AssocMap Key Value) : List Value := map.entries.map Prod.snd

/-- Keep the entries that satisfy the test, in their order. -/
def retain (map : AssocMap Key Value) (keep : Key → Value → Bool) : AssocMap Key Value where
  entries := map.entries.filter fun entry => keep entry.1 entry.2
  nodupKeys := map.nodupKeys.sublist (List.filter_sublist.map _)

/-- Rewrite every value in place. -/
def mapValues (map : AssocMap Key Value) (f : Key → Value → Value) : AssocMap Key Value where
  entries := map.entries.map fun entry => (entry.1, f entry.1 entry.2)
  nodupKeys := by
    have hkeys : (map.entries.map fun entry => (entry.1, f entry.1 entry.2)).map Prod.fst =
        map.entries.map Prod.fst := by simp
    rw [hkeys]
    exact map.nodupKeys

/-- The map of what a projection takes from the values. -/
def project {Other : Type*} (map : AssocMap Key Value) (f : Value → Other) :
    AssocMap Key Other where
  entries := map.entries.map fun entry => (entry.1, f entry.2)
  nodupKeys := by
    have hkeys : (map.entries.map fun entry => (entry.1, f entry.2)).map Prod.fst =
        map.entries.map Prod.fst := by simp
    rw [hkeys]
    exact map.nodupKeys

/-- The sum of a weight over the entries. -/
def total (map : AssocMap Key Value) (weight : Key → Value → Nat) : Nat :=
  (map.entries.map fun entry => weight entry.1 entry.2).sum

section

variable (map : AssocMap Key Value)

/-- The number of entries that pass a test is the total of its indicator. -/
theorem length_filter_entries (test : Key × Value → Bool) :
    (map.entries.filter test).length =
      map.total fun key value => if test (key, value) then 1 else 0 := by
  unfold total
  induction map.entries with
  | nil => rfl
  | cons entry rest ih =>
      cases htest : test entry with
      | true => simp [htest, ih, Nat.add_comm]
      | false => simp [htest, ih]

theorem filter_values (test : Value → Bool) :
    map.values.filter test = (map.entries.filter fun entry => test entry.2).map Prod.snd :=
  List.filter_map

theorem filter_keys (test : Key → Bool) :
    map.keys.filter test = (map.entries.filter fun entry => test entry.1).map Prod.fst :=
  List.filter_map

theorem nodup_keysWhere (test : Key × Value → Bool) :
    ((map.entries.filter test).map Prod.fst).Nodup :=
  map.nodupKeys.sublist (List.filter_sublist.map _)

/-- What is retained and what is dropped make up the total. -/
theorem total_retain (weight : Key → Value → Nat) (keep : Key → Value → Bool) :
    (map.retain keep).total weight +
        ((map.entries.filter fun entry => !keep entry.1 entry.2).map fun entry =>
          weight entry.1 entry.2).sum =
      map.total weight := by
  simp only [total, retain]
  induction map.entries with
  | nil => rfl
  | cons entry rest ih =>
      cases hkeep : keep entry.1 entry.2 with
      | true =>
          simp only [List.filter_cons, hkeep, Bool.not_true, Bool.false_eq_true, if_true, if_false,
            List.map_cons, List.sum_cons]
          omega
      | false =>
          simp only [List.filter_cons, hkeep, Bool.not_false, Bool.false_eq_true, if_true, if_false,
            List.map_cons, List.sum_cons]
          omega

end

variable [DecidableEq Key]

def get (map : AssocMap Key Value) (key : Key) : Option Value :=
  (map.entries.find? fun entry => entry.1 = key).map Prod.snd

def contains (map : AssocMap Key Value) (key : Key) : Bool :=
  map.entries.any fun entry => entry.1 = key

/-- Rewrite the value of one key in place; nothing happens when it is absent. -/
def modify (map : AssocMap Key Value) (key : Key) (f : Value → Value) : AssocMap Key Value :=
  map.mapValues fun other value => if other = key then f value else value

theorem contains_iff_mem_keys (map : AssocMap Key Value) (key : Key) :
    map.contains key = true ↔ key ∈ map.keys := by
  simp [contains, keys]

/-- Append an entry for a key the map does not hold. -/
def push (map : AssocMap Key Value) (key : Key) (value : Value)
    (habsent : ¬ map.contains key = true) : AssocMap Key Value where
  entries := map.entries ++ [(key, value)]
  nodupKeys := by
    rw [contains_iff_mem_keys] at habsent
    rw [List.map_append, List.nodup_append]
    refine ⟨map.nodupKeys, List.nodup_singleton _, ?_⟩
    intro first hfirst second hsecond heq
    simp only [List.map_cons, List.map_nil, List.mem_singleton] at hsecond
    exact habsent (hsecond ▸ heq ▸ hfirst)

/-- Set the value of a key, in place when it is present and at the end otherwise. -/
def insert (map : AssocMap Key Value) (key : Key) (value : Value) : AssocMap Key Value :=
  if h : map.contains key = true then map.modify key fun _ => value else map.push key value h

/-- Insert a default when the key is absent. -/
def orInsert (map : AssocMap Key Value) (key : Key) (value : Value) : AssocMap Key Value :=
  if h : map.contains key = true then map else map.push key value h

def erase (map : AssocMap Key Value) (key : Key) : AssocMap Key Value :=
  map.retain fun other _ => other ≠ key

@[simp]
theorem get_empty (key : Key) : (empty : AssocMap Key Value).get key = none := rfl

variable {key : Key} {map : AssocMap Key Value} {value : Value}

theorem get_eq_some_iff : map.get key = some value ↔ (key, value) ∈ map.entries := by
  obtain ⟨entries, hnodup⟩ := map
  simp only [get]
  induction entries with
  | nil => simp
  | cons entry rest ih =>
      obtain ⟨head, headValue⟩ := entry
      simp only [List.map_cons, List.nodup_cons] at hnodup
      by_cases heq : head = key
      · subst heq
        have hnot : (head, value) ∉ rest := fun h => hnodup.1 (List.mem_map_of_mem h)
        simp [hnot, eq_comm]
      · simpa [heq, Ne.symm heq] using ih hnodup.2

theorem get_eq_none_iff : map.get key = none ↔ key ∉ map.keys := by
  simp only [get, keys, Option.map_eq_none_iff, List.find?_eq_none, decide_eq_true_eq,
    List.mem_map, not_exists, not_and]

theorem contains_eq (map : AssocMap Key Value) (key : Key) :
    map.contains key = (map.get key).isSome := by
  rw [Bool.eq_iff_iff, contains_iff_mem_keys, Option.isSome_iff_ne_none, Ne, get_eq_none_iff,
    not_not]

/-- Maps that answer every lookup alike have equally many entries. -/
theorem size_eq_of_isSome {left right : AssocMap Key Value}
    (hsome : ∀ key, (left.get key).isSome = (right.get key).isSome) :
    left.size = right.size := by
  have hkeys : left.keys.Perm right.keys := by
    refine (List.perm_ext_iff_of_nodup left.nodupKeys right.nodupKeys).mpr fun key => ?_
    have hcontains := contains_eq left key
    rw [hsome, ← contains_eq] at hcontains
    change key ∈ left.keys ↔ key ∈ right.keys
    rw [← contains_iff_mem_keys, ← contains_iff_mem_keys, hcontains]
  have hlength := hkeys.length_eq
  rw [keys, keys, List.length_map, List.length_map] at hlength
  exact hlength

section

variable (map : AssocMap Key Value)

theorem get_mapValues (f : Key → Value → Value) (key : Key) :
    (map.mapValues f).get key = (map.get key).map (f key) := by
  obtain ⟨entries, hnodup⟩ := map
  simp only [get, mapValues]
  clear hnodup
  induction entries with
  | nil => rfl
  | cons entry rest ih =>
      by_cases heq : entry.1 = key
      · simp [heq]
      · simpa [heq] using ih

theorem get_modify_self (key : Key) (f : Value → Value) :
    (map.modify key f).get key = (map.get key).map f := by
  simp [modify, get_mapValues]

theorem get_modify_of_ne {key other : Key} (f : Value → Value) (hne : other ≠ key) :
    (map.modify key f).get other = map.get other := by
  simp [modify, get_mapValues, hne]

theorem isSome_get_modify (key other : Key) (f : Value → Value) :
    ((map.modify key f).get other).isSome = (map.get other).isSome := by
  rw [modify, get_mapValues, Option.isSome_map]

theorem get_push_self (key : Key) (value : Value) (h) :
    (map.push key value h).get key = some value :=
  get_eq_some_iff.mpr (by simp [push])

theorem get_push_of_ne {key other : Key} (value : Value) (h) (hne : other ≠ key) :
    (map.push key value h).get other = map.get other := by
  simp [get, push, List.find?_append, Ne.symm hne]

theorem get_insert_self (key : Key) (value : Value) :
    (map.insert key value).get key = some value := by
  unfold insert
  split
  next hmem =>
    rw [contains_eq, Option.isSome_iff_exists] at hmem
    obtain ⟨old, hold⟩ := hmem
    rw [get_modify_self, hold]
    rfl
  next => exact map.get_push_self key value _

theorem get_insert_of_ne {key other : Key} (value : Value) (hne : other ≠ key) :
    (map.insert key value).get other = map.get other := by
  unfold insert
  split
  · exact map.get_modify_of_ne _ hne
  · exact map.get_push_of_ne value _ hne

theorem get_insert (key other : Key) (value : Value) :
    (map.insert key value).get other = if other = key then some value else map.get other := by
  split
  next heq => rw [heq, get_insert_self]
  next hne => exact map.get_insert_of_ne value hne

end

/-- Setting the value that a key has already changes nothing. -/
theorem insert_of_get (hget : map.get key = some value) : map.insert key value = map := by
  have hmem : map.contains key = true := by
    rw [contains_eq, hget]
    rfl
  unfold insert
  rw [dif_pos hmem]
  ext1
  simp only [modify, mapValues]
  conv_rhs => rw [← List.map_id map.entries]
  refine List.map_congr_left fun entry hentry => ?_
  by_cases heq : entry.1 = key
  · have hvalue : map.get entry.1 = some entry.2 := get_eq_some_iff.mpr hentry
    rw [heq, hget, Option.some.injEq] at hvalue
    rw [if_pos heq, hvalue]
    rfl
  · simp [heq]

/-- Rewriting a value that was just set. -/
theorem modify_insert (map : AssocMap Key Value) (key : Key) (value : Value) (f : Value → Value) :
    (map.insert key value).modify key f = map.insert key (f value) := by
  unfold insert
  split
  next =>
    ext1
    simp only [modify, mapValues, List.map_map]
    refine List.map_congr_left fun entry _ => ?_
    by_cases heq : entry.1 = key <;> simp [heq]
  next habsent =>
    ext1
    simp only [modify, mapValues, push, List.map_append, List.map_cons, List.map_nil, if_true]
    congr 1
    conv_rhs => rw [← List.map_id map.entries]
    refine List.map_congr_left fun entry hmem => ?_
    have hne : entry.1 ≠ key := by
      intro heq
      rw [contains_iff_mem_keys] at habsent
      exact habsent (heq ▸ List.mem_map_of_mem hmem)
    simp [hne]

/-- Rewriting a value is setting the rewritten one. -/
theorem modify_of_get (hget : map.get key = some value) (f : Value → Value) :
    map.modify key f = map.insert key (f value) := by
  rw [← modify_insert, insert_of_get hget]

theorem modify_of_get_none (hget : map.get key = none) (f : Value → Value) :
    map.modify key f = map := by
  ext1
  simp only [modify, mapValues]
  conv_rhs => rw [← List.map_id map.entries]
  refine List.map_congr_left fun entry hmem => ?_
  have hne : entry.1 ≠ key := by
    intro heq
    exact get_eq_none_iff.mp hget (heq ▸ List.mem_map_of_mem hmem)
  simp [hne]

section

variable (map : AssocMap Key Value)

theorem get_orInsert_of_ne {key other : Key} (value : Value) (hne : other ≠ key) :
    (map.orInsert key value).get other = map.get other := by
  unfold orInsert
  split
  · rfl
  · exact map.get_push_of_ne value _ hne

theorem get_orInsert_self (key : Key) (value : Value) :
    (map.orInsert key value).get key = some ((map.get key).getD value) := by
  unfold orInsert
  split
  next hmem =>
    rw [contains_eq, Option.isSome_iff_exists] at hmem
    obtain ⟨old, hold⟩ := hmem
    simp [hold]
  next habsent =>
    rw [contains_eq, Bool.not_eq_true, Option.isSome_eq_false_iff,
      Option.isNone_iff_eq_none] at habsent
    rw [get_push_self, habsent]
    rfl

theorem get_retain (keep : Key → Value → Bool) (key : Key) :
    (map.retain keep).get key = (map.get key).filter (keep key) := by
  cases hget : map.get key with
  | none =>
      rw [get_eq_none_iff] at hget
      refine get_eq_none_iff.mpr fun hmem => hget ?_
      obtain ⟨entry, hentry, heq⟩ := List.mem_map.mp hmem
      exact List.mem_map.mpr ⟨entry, (List.mem_filter.mp hentry).1, heq⟩
  | some value =>
      rw [Option.filter_some]
      have hmem := get_eq_some_iff.mp hget
      split
      next hkeep => exact get_eq_some_iff.mpr (List.mem_filter.mpr ⟨hmem, hkeep⟩)
      next hkeep =>
        cases hother : (map.retain keep).get key with
        | none => rfl
        | some other =>
            have hfiltered := List.mem_filter.mp (get_eq_some_iff.mp hother)
            have hsame := (get_eq_some_iff.mpr hfiltered.1).symm.trans hget
            rw [Option.some.injEq] at hsame
            exact absurd (hsame ▸ hfiltered.2) hkeep

@[simp]
theorem get_erase_self (key : Key) : (map.erase key).get key = none := by
  rw [erase, get_retain]
  cases map.get key <;> simp

theorem get_erase_of_ne {key other : Key} (hne : other ≠ key) :
    (map.erase key).get other = map.get other := by
  rw [erase, get_retain]
  cases map.get other <;> simp [hne]

end

theorem get_of_erase {key other : Key} (h : (map.erase key).get other = some value) :
    other ≠ key ∧ map.get other = some value := by
  have hne : other ≠ key := by
    rintro rfl
    rw [get_erase_self] at h
    cases h
  exact ⟨hne, map.get_erase_of_ne hne ▸ h⟩

variable {holds : Key → Value → Prop} {entries : List (Key × Value)} {test : Key × Value → Bool}

/-- What holds of all entries and of a new one holds of all afterwards. -/
theorem forall_insert (hmap : ∀ other found, map.get other = some found → holds other found)
    (hvalue : holds key value) :
    ∀ other found, (map.insert key value).get other = some found → holds other found := by
  intro other found hget
  rw [get_insert] at hget
  split at hget
  next heq =>
    cases hget
    exact heq ▸ hvalue
  next => exact hmap other found hget

theorem forall_retain {keep : Key → Value → Bool}
    (hmap : ∀ other found, map.get other = some found → holds other found) :
    ∀ other found, (map.retain keep).get other = some found → holds other found := by
  intro other found hget
  rw [get_retain] at hget
  exact hmap other found (Option.eq_some_of_filter_eq_some hget)

/-! ## Collecting entries -/

theorem size_modify (map : AssocMap Key Value) (key : Key) (f : Value → Value) :
    (map.modify key f).size = map.size := List.length_map _

theorem insert_of_not_mem (value : Value) (habsent : key ∉ map.keys) :
    (map.insert key value).entries = map.entries ++ [(key, value)] := by
  unfold insert
  rw [dif_neg (by rwa [contains_iff_mem_keys])]
  rfl

theorem size_insert_of_mem (value : Value) (hmem : key ∈ map.keys) :
    (map.insert key value).size = map.size := by
  unfold insert
  rw [dif_pos ((contains_iff_mem_keys map key).mpr hmem), size_modify]

/-- What folding over the entries makes of the part of a state that belongs to one key. -/
theorem read_foldl_entries {State α : Type*} {f : State → Key × Value → State} {read : State → α}
    {merge : α → Value → α}
    (hself : ∀ state value, read (f state (key, value)) = merge (read state) value)
    (hother : ∀ state entry, entry.1 ≠ key → read (f state entry) = read state)
    (map : AssocMap Key Value) (state : State) :
    read (map.entries.foldl f state) = (map.get key).elim (read state) (merge (read state)) := by
  obtain ⟨entries, hnodup⟩ := map
  simp only [get]
  induction entries generalizing state with
  | nil => rfl
  | cons entry rest ih =>
      rw [List.map_cons, List.nodup_cons] at hnodup
      rw [List.foldl_cons, ih _ hnodup.2]
      by_cases heq : entry.1 = key
      · -- The key is not met again.
        have hrest : rest.find? (fun entry => entry.1 = key) = none := by
          refine List.find?_eq_none.mpr fun other hmem hother => hnodup.1 ?_
          rw [heq, ← of_decide_eq_true hother]
          exact List.mem_map_of_mem hmem
        obtain ⟨head, value⟩ := entry
        obtain rfl : head = key := heq
        rw [hrest, hself]
        simp
      · rw [hother state entry heq, List.find?_cons_of_neg (by simpa using heq)]

/-- The map that takes in the entries one after the other. -/
def collect (entries : List (Key × Value)) : AssocMap Key Value :=
  entries.foldl (fun map entry => map.insert entry.1 entry.2) empty

theorem collect_append (entries : List (Key × Value)) (entry : Key × Value) :
    collect (entries ++ [entry]) = (collect entries).insert entry.1 entry.2 := by
  rw [collect, List.foldl_append]
  rfl

theorem entries_collect (hnodup : (entries.map Prod.fst).Nodup) :
    (collect entries).entries = entries := by
  induction entries using List.reverseRecOn with
  | nil => rfl
  | append_singleton entries entry ih =>
      rw [List.map_append, List.nodup_append] at hnodup
      have hentries := ih hnodup.1
      have habsent : entry.1 ∉ (collect entries).keys := by
        rw [keys, hentries]
        exact fun hmem => hnodup.2.2 _ hmem _ (List.mem_singleton_self _) rfl
      rw [collect_append, insert_of_not_mem entry.2 habsent, hentries]

theorem collect_entries (map : AssocMap Key Value) : collect map.entries = map :=
  AssocMap.ext (entries_collect map.nodupKeys)

theorem size_insert_le (map : AssocMap Key Value) (key : Key) (value : Value) :
    (map.insert key value).size ≤ map.size + 1 := by
  by_cases hmem : key ∈ map.keys
  · rw [size_insert_of_mem value hmem]
    exact Nat.le_succ _
  · rw [size, insert_of_not_mem value hmem, List.length_append]
    exact le_rfl

theorem size_collect_le (entries : List (Key × Value)) : (collect entries).size ≤ entries.length := by
  induction entries using List.reverseRecOn with
  | nil => exact le_rfl
  | append_singleton entries entry ih =>
      rw [collect_append, List.length_append]
      exact Nat.le_trans (size_insert_le _ _ _) (Nat.succ_le_succ ih)

/-- Entries that all find their place have been distinct. -/
theorem entries_collect_of_size (hsize : entries.length ≤ (collect entries).size) :
    (collect entries).entries = entries := by
  induction entries using List.reverseRecOn with
  | nil => rfl
  | append_singleton entries entry ih =>
      rw [collect_append, List.length_append, List.length_singleton] at hsize
      have hle := size_collect_le entries
      by_cases hmem : entry.1 ∈ (collect entries).keys
      · rw [size_insert_of_mem entry.2 hmem] at hsize
        omega
      · have hinsert := insert_of_not_mem entry.2 hmem
        rw [size, hinsert, List.length_append, List.length_singleton] at hsize
        rw [collect_append, hinsert, ih (Nat.le_of_succ_le_succ hsize)]

/-! ## Totals -/

/-- The weight of the entry of a key, nothing when it is absent. -/
def weightAt (map : AssocMap Key Value) (weight : Key → Value → Nat) (key : Key) : Nat :=
  (map.get key).elim 0 (weight key)

theorem weightAt_of_get (weight : Key → Value → Nat) (hget : map.get key = some value) :
    map.weightAt weight key = weight key value := by
  rw [weightAt, hget]
  rfl

theorem weightAt_of_get_none (weight : Key → Value → Nat) (hget : map.get key = none) :
    map.weightAt weight key = 0 := by
  rw [weightAt, hget]
  rfl

section

variable (map : AssocMap Key Value) (weight : Key → Value → Nat) (key : Key)

theorem total_modify (f : Value → Value) :
    (map.modify key f).total weight + map.weightAt weight key =
      map.total weight + (map.get key).elim 0 fun value => weight key (f value) := by
  obtain ⟨entries, hnodup⟩ := map
  simp only [total, weightAt, modify, mapValues, get]
  induction entries with
  | nil => rfl
  | cons entry rest ih =>
      obtain ⟨head, value⟩ := entry
      simp only [List.map_cons, List.nodup_cons] at hnodup
      by_cases heq : head = key
      · subst heq
        -- The key is not repeated, so the rest is left alone.
        have hrest : rest.map (fun entry => (entry.1, if entry.1 = head then f entry.2
            else entry.2)) = rest := by
          conv_rhs => rw [← List.map_id rest]
          refine List.map_congr_left fun entry hmem => ?_
          have hne : entry.1 ≠ head := fun h => hnodup.1 (h ▸ List.mem_map_of_mem hmem)
          simp [hne]
        simp only [List.map_cons, List.sum_cons, if_pos, hrest, List.find?_cons, decide_true,
          Option.map_some, Option.elim_some]
        omega
      · have hrest := ih hnodup.2
        simp only [List.map_cons, List.sum_cons, List.find?_cons, heq, if_false, decide_false]
        omega

theorem total_push (value : Value) (h) :
    (map.push key value h).total weight = map.total weight + weight key value := by
  simp [total, push]

/-- Setting a value replaces the weight of the old one. -/
theorem total_insert (value : Value) :
    (map.insert key value).total weight + map.weightAt weight key =
      map.total weight + weight key value := by
  unfold insert
  split
  next hmem =>
    rw [contains_eq, Option.isSome_iff_exists] at hmem
    obtain ⟨old, hold⟩ := hmem
    rw [total_modify, hold]
    rfl
  next habsent =>
    rw [contains_eq, Bool.not_eq_true, Option.isSome_eq_false_iff,
      Option.isNone_iff_eq_none] at habsent
    rw [total_push, weightAt_of_get_none weight habsent, Nat.add_zero]

/-- Erasing a key removes its weight. -/
theorem total_erase :
    (map.erase key).total weight + map.weightAt weight key = map.total weight := by
  obtain ⟨entries, hnodup⟩ := map
  simp only [total, weightAt, erase, retain, get]
  induction entries with
  | nil => rfl
  | cons entry rest ih =>
      obtain ⟨head, value⟩ := entry
      simp only [List.map_cons, List.nodup_cons] at hnodup
      by_cases heq : head = key
      · subst heq
        have hrest : rest.filter (fun entry => decide (entry.1 ≠ head)) = rest := by
          refine List.filter_eq_self.mpr fun entry hmem => ?_
          have hne : entry.1 ≠ head := fun h => hnodup.1 (h ▸ List.mem_map_of_mem hmem)
          simp [hne]
        rw [List.filter_cons_of_neg (by simp), hrest]
        simp [Nat.add_comm]
      · have hrest := ih hnodup.2
        simp only [List.filter_cons, ne_eq, heq, not_false_eq_true, decide_true, if_true,
          List.map_cons, List.sum_cons, List.find?_cons, decide_false]
        simp only [ne_eq] at hrest
        omega

/-- The total without the weight of one key. -/
theorem total_except :
    (map.total fun other value => if other = key then 0 else weight other value) +
      map.weightAt weight key = map.total weight := by
  rw [← total_erase map weight key]
  congr 1
  simp only [total, erase, retain]
  induction map.entries with
  | nil => rfl
  | cons entry rest ih =>
      by_cases heq : entry.1 = key
      · simp [heq, ih]
      · simp [heq, ih]

end

/-! ## The entries that pass a test -/

theorem mem_keysWhere :
    key ∈ (map.entries.filter test).map Prod.fst ↔
      ∃ value, map.get key = some value ∧ test (key, value) = true := by
  simp only [List.mem_map, List.mem_filter, Prod.exists, exists_and_right, exists_eq_right,
    get_eq_some_iff]

theorem mem_valuesWhere :
    value ∈ (map.entries.filter test).map Prod.snd ↔
      ∃ key, map.get key = some value ∧ test (key, value) = true := by
  simp only [List.mem_map, List.mem_filter, Prod.exists, exists_eq_right, get_eq_some_iff]

end AssocMap

end MerkleTox.Library
