/-!
# Keys and values in insertion order

Objects, argument lists and schema tables keep their keys in the order in which they were first
inserted. `Entries` is that order made explicit: a list of pairs in which every key occurs once.

* `get?_insert_self`, `get?_insert_of_ne` — what reading sees after an insertion;
* `keys_insert_of_mem`, `keys_insert_of_not_mem` — a known key keeps its place, a new one comes last;
* `mem_insert`, `nodup_keys_insert` — what an insertion adds, and that keys stay distinct.
-/

namespace GraphQL

universe u

/-- Keys with their values, in the order in which the keys were first inserted. -/
abbrev Entries (α : Type u) := List (String × α)

namespace Entries

variable {α : Type u}

/-- The keys in insertion order. -/
def keys (entries : Entries α) : List String := entries.map Prod.fst

/-- The values in insertion order. -/
def values (entries : Entries α) : List α := entries.map Prod.snd

/-- The value stored under a key. -/
def get? : Entries α → String → Option α
  | [], _ => none
  | (k, v) :: rest, key => if k = key then some v else get? rest key

/-- Whether a key is present. -/
def contains (entries : Entries α) (key : String) : Bool := (get? entries key).isSome

/-- Stores a value: a known key keeps its place, a new key comes last. -/
def insert : Entries α → String → α → Entries α
  | [], key, value => [(key, value)]
  | (k, v) :: rest, key, value =>
      if k = key then (key, value) :: rest else (k, v) :: insert rest key value

/-- Inserts the pairs one after the other, so a repeated key has its first place and last value. -/
def ofPairs (pairs : List (String × α)) : Entries α :=
  pairs.foldl (fun entries pair => insert entries pair.1 pair.2) []

/-- Removes a key and keeps the order of the others. -/
def erase : Entries α → String → Entries α
  | [], _ => []
  | (k, v) :: rest, key => if k = key then rest else (k, v) :: erase rest key

/-- Changes the value under a key, if it is present. -/
def modify : Entries α → String → (α → α) → Entries α
  | [], _, _ => []
  | (k, v) :: rest, key, f => if k = key then (k, f v) :: rest else (k, v) :: modify rest key f

/-- Replaces the first entry with the given key by another entry. -/
def replaceKey : Entries α → String → String × α → Entries α
  | [], _, _ => []
  | (k, v) :: rest, key, entry =>
      if k = key then entry :: rest else (k, v) :: replaceKey rest key entry

/-- Removes a key by moving the last entry into its place. -/
def swapErase (entries : Entries α) (key : String) : Entries α :=
  match entries.getLast? with
  | none => []
  | some last =>
      if last.1 = key then entries.dropLast else replaceKey entries.dropLast key last

@[simp] theorem get?_nil (key : String) : get? ([] : Entries α) key = none := rfl

theorem get?_insert_self (entries : Entries α) (key : String) (value : α) :
    get? (insert entries key value) key = some value := by
  induction entries with
  | nil => simp [insert, get?]
  | cons entry rest ih =>
    obtain ⟨k, v⟩ := entry
    by_cases h : k = key <;> simp [insert, get?, h, ih]

theorem get?_insert_of_ne (entries : Entries α) {key other : String} (value : α)
    (h : key ≠ other) : get? (insert entries key value) other = get? entries other := by
  induction entries with
  | nil => simp [insert, get?, h]
  | cons entry rest ih =>
    obtain ⟨k, v⟩ := entry
    by_cases hk : k = key
    · subst hk; simp [insert, get?, h]
    · by_cases ho : k = other
      · subst ho; simp [insert, get?, hk]
      · simp [insert, get?, hk, ho, ih]

theorem get?_isSome_iff_mem_keys (entries : Entries α) (key : String) :
    (get? entries key).isSome ↔ key ∈ keys entries := by
  induction entries with
  | nil => simp [keys]
  | cons entry rest ih =>
    obtain ⟨k, v⟩ := entry
    by_cases h : k = key
    · simp [get?, keys, h]
    · have h' : ¬ key = k := fun e => h e.symm
      simpa [get?, keys, h, h'] using ih

theorem keys_insert_of_mem (entries : Entries α) {key : String} (value : α)
    (h : key ∈ keys entries) : keys (insert entries key value) = keys entries := by
  induction entries with
  | nil => simp [keys] at h
  | cons entry rest ih =>
    obtain ⟨k, v⟩ := entry
    by_cases hk : k = key
    · simp [insert, keys, hk]
    -- The key is not that of the first entry, so it is a key of the rest.
    · have h' : key ∈ keys rest := by
        have hne : key ≠ k := fun e => hk e.symm
        simpa [keys, hne] using h
      simpa [insert, keys, hk] using ih h'

theorem keys_insert_of_not_mem (entries : Entries α) {key : String} (value : α)
    (h : key ∉ keys entries) : keys (insert entries key value) = keys entries ++ [key] := by
  induction entries with
  | nil => simp [insert, keys]
  | cons entry rest ih =>
    obtain ⟨k, v⟩ := entry
    have hk : k ≠ key := fun e => h (by simp [keys, e])
    have h' : key ∉ keys rest := fun m => h (by simpa [keys] using Or.inr m)
    simpa [insert, keys, hk] using ih h'

theorem mem_insert {entries : Entries α} {key : String} {value : α} {entry : String × α}
    (h : entry ∈ insert entries key value) : entry = (key, value) ∨ entry ∈ entries := by
  induction entries with
  | nil => exact .inl (List.mem_singleton.mp h)
  | cons first rest ih =>
    rw [insert] at h
    split at h
    · exact (List.mem_cons.mp h).imp_right (List.mem_cons_of_mem first)
    · rcases List.mem_cons.mp h with rfl | hrest
      · exact .inr List.mem_cons_self
      · exact (ih hrest).imp_right (List.mem_cons_of_mem first)

theorem nodup_keys_insert {entries : Entries α} (key : String) (value : α)
    (h : (keys entries).Nodup) : (keys (insert entries key value)).Nodup := by
  by_cases hmem : key ∈ keys entries
  · rw [keys_insert_of_mem entries value hmem]
    exact h
  · rw [keys_insert_of_not_mem entries value hmem]
    refine List.nodup_append.mpr ⟨h, List.pairwise_singleton _ _, fun known hknown other hother => ?_⟩
    rw [List.mem_singleton.mp hother]
    exact fun heq => hmem (heq ▸ hknown)

theorem get?_mem {entries : Entries α} {key : String} {value : α}
    (h : get? entries key = some value) : (key, value) ∈ entries := by
  induction entries with
  | nil => exact absurd h (by simp)
  | cons first rest ih =>
    rw [get?] at h
    split at h
    next hkey =>
      obtain rfl := Option.some.inj h
      subst hkey
      exact List.mem_cons_self
    next => exact List.mem_cons_of_mem first (ih h)

end Entries

end GraphQL
