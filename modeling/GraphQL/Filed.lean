import GraphQL.Entries

/-!
# Definitions that are filed under their names

The fields of a type, the arguments of a field and the values of an enum type are definitions that have a
name of their own. Types and fields are built by adding them one by one: each is
filed under its own name, and a later one of the same name takes the place of an earlier one.
That every definition is found under its own name, and no name twice, is what this way of building
preserves, so it is part of the type `Filed`. What is read from a type or a field need not be checked
for it again.

* `Filed.add`, `Filed.ofList` — the ways to file definitions;
* `Filed.names_eq_keys` — the names of the definitions are their keys;
* `Filed.name_of_get?` — what is found under a name has that name.
-/

namespace GraphQL

/-- Definitions with names, each of them filed under its own name. -/
structure Filed {α : Type} (name : α → String) where
  entries : Entries α
  distinct : (Entries.keys entries).Nodup
  named : ∀ entry ∈ entries, entry.1 = name entry.2

namespace Filed

variable {α : Type} {name : α → String}

/-- Nothing filed yet. -/
def empty : Filed name := ⟨[], .nil, fun _ hmem => absurd hmem List.not_mem_nil⟩

/-- Files a definition under its own name. -/
def add (filed : Filed name) (definition : α) : Filed name where
  entries := Entries.insert filed.entries (name definition) definition
  distinct := Entries.nodup_keys_insert _ _ filed.distinct
  named entry hmem := by
    rcases Entries.mem_insert hmem with rfl | hknown
    · rfl
    · exact filed.named entry hknown

/-- Files definitions one after the other. -/
def ofList (definitions : List α) : Filed name := definitions.foldl add empty

/-- The names of the definitions are their keys. -/
theorem names_eq_keys (filed : Filed name) :
    (Entries.values filed.entries).map name = Entries.keys filed.entries := by
  rw [Entries.values, Entries.keys, List.map_map]
  exact (List.map_congr_left filed.named).symm

/-- No two definitions have the same name. -/
theorem nodup_names (filed : Filed name) : ((Entries.values filed.entries).map name).Nodup := by
  rw [filed.names_eq_keys]
  exact filed.distinct

/-- What is found under a name has that name. -/
theorem name_of_get? {filed : Filed name} {key : String} {definition : α}
    (h : Entries.get? filed.entries key = some definition) : name definition = key :=
  (filed.named _ (Entries.get?_mem h)).symm

end Filed

end GraphQL
