import Mathlib.Data.List.Basic

/-! # Least-recently-used caches

A cache is the list of its entries, most recently used first. A lookup moves its
entry to the front, and storing beyond the capacity drops the last entry. Every
entry of a cache was stored at some time, which is all that users of a cache of
derived facts rely on.
-/

namespace MerkleTox.Library

universe uKey uValue

structure LruCache (Key : Type uKey) (Value : Type uValue) where
  capacity : Nat
  entries : List (Key × Value)

namespace LruCache

variable {Key : Type uKey} {Value : Type uValue}

def new (capacity : Nat) : LruCache Key Value := ⟨capacity, []⟩

def clear (cache : LruCache Key Value) : LruCache Key Value := { cache with entries := [] }

variable [DecidableEq Key]

def peek (cache : LruCache Key Value) (key : Key) : Option Value :=
  (cache.entries.find? fun entry => entry.1 = key).map Prod.snd

/-- Store a value at the front and drop what exceeds the capacity. -/
def put (cache : LruCache Key Value) (key : Key) (value : Value) : LruCache Key Value :=
  { cache with
      entries := ((key, value) ::
        cache.entries.filter fun entry => entry.1 ≠ key).take cache.capacity }

/-- Look a key up and mark it as used. -/
def get (cache : LruCache Key Value) (key : Key) : Option Value × LruCache Key Value :=
  match cache.peek key with
  | some value => (some value, cache.put key value)
  | none => (none, cache)

@[simp]
theorem get_fst (cache : LruCache Key Value) (key : Key) : (cache.get key).1 = cache.peek key := by
  unfold get
  cases h : cache.peek key <;> rfl

variable {cache : LruCache Key Value} {key : Key} {entry : Key × Value}

theorem mem_of_peek {value : Value} (h : cache.peek key = some value) :
    (key, value) ∈ cache.entries := by
  simp only [peek, Option.map_eq_some_iff] at h
  obtain ⟨entry, hfind, rfl⟩ := h
  have hkey := List.find?_some hfind
  have hmem := List.mem_of_find?_eq_some hfind
  simp only [decide_eq_true_eq] at hkey
  exact hkey ▸ hmem

theorem mem_put {value : Value} (h : entry ∈ (cache.put key value).entries) :
    entry = (key, value) ∨ (entry ∈ cache.entries ∧ entry.1 ≠ key) := by
  have hmem := List.mem_of_mem_take h
  rcases List.mem_cons.mp hmem with heq | hrest
  · exact .inl heq
  · obtain ⟨hold, hkey⟩ := List.mem_filter.mp hrest
    exact .inr ⟨hold, of_decide_eq_true hkey⟩

theorem mem_get (h : entry ∈ (cache.get key).2.entries) : entry ∈ cache.entries := by
  unfold get at h
  cases hpeek : cache.peek key with
  | none => simpa [hpeek] using h
  | some value =>
      simp only [hpeek] at h
      rcases mem_put h with heq | ⟨hold, _⟩
      · exact heq ▸ mem_of_peek hpeek
      · exact hold

end LruCache

end MerkleTox.Library
