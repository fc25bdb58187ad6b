/-!
Ordered tables: entries under string keys, in the order in which the keys were first added.  Putting
a value under a key that is present replaces it where it stands.  Lookup is `List.lookup`.
-/

namespace TypedQuery

/-- A table is a plain list, so that the library's own lists of fields, arguments and types share
the lemmas of `List`.  Keys are distinct when the table is built by `put`. -/
abbrev Keyed (α : Type) := List (String × α)

namespace Keyed

variable {α : Type}

def put (key : String) (value : α) : Keyed α → Keyed α
  | [] => [(key, value)]
  | (k, v) :: rest => if k = key then (key, value) :: rest else (k, v) :: put key value rest

def has (key : String) (entries : Keyed α) : Bool := (entries.lookup key).isSome

def keys (entries : Keyed α) : List String := entries.map Prod.fst

def values (entries : Keyed α) : List α := entries.map Prod.snd

/-- Puts the entries one after another, so the last of a repeated key stays, in the first one's
place. -/
def ofList (entries : List (String × α)) : Keyed α :=
  entries.foldl (fun table entry => put entry.1 entry.2 table) []

theorem lookup_put_self (key : String) (value : α) (entries : Keyed α) :
    (put key value entries).lookup key = some value := by
  induction entries with
  | nil => simp [put]
  | cons entry rest ih =>
    obtain ⟨k, v⟩ := entry
    by_cases h : k = key
    · simp [put, h]
    · have hk : (key == k) = false := by simp [Ne.symm h]
      simp [put, h, List.lookup_cons, hk, ih]

theorem lookup_put_of_ne {key other : String} (h : other ≠ key) (value : α) (entries : Keyed α) :
    (put key value entries).lookup other = entries.lookup other := by
  have hko : (other == key) = false := by simp [h]
  induction entries with
  | nil => simp [put, h]
  | cons entry rest ih =>
    obtain ⟨k, v⟩ := entry
    by_cases hk : k = key
    · subst hk
      simp [put, List.lookup_cons, hko]
    · simp only [put, hk, if_false, List.lookup_cons]
      split
      · rfl
      · exact ih

/-- Keys keep their order; a new one goes to the end. -/
theorem keys_put (key : String) (value : α) (entries : Keyed α) :
    keys (put key value entries) =
      if key ∈ keys entries then keys entries else keys entries ++ [key] := by
  induction entries with
  | nil => simp [put, keys]
  | cons entry rest ih =>
    obtain ⟨k, v⟩ := entry
    by_cases hk : k = key
    · simp [put, keys, hk]
    · have hk' : ¬ key = k := fun e => hk e.symm
      simp only [keys] at ih
      by_cases hm : key ∈ rest.map Prod.fst
      · simp [put, keys, hk, hk', ih, hm]
      · simp [put, keys, hk, hk', ih, hm]

end Keyed

end TypedQuery
