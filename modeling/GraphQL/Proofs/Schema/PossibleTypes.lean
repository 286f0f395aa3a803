import GraphQL.Proofs.Schema.WellFormed

/-!
# Possible types

A schema keeps the names of the object types that each interface and each union stands for. Where every
type stands under its own name, these are the object types that declare the interface, in the order of
the table, and the members of the union, in the order in which it lists them.

The names are kept when the schema is made, and looked up when a value is completed. Both look at
the same table, so what is kept can be read off the definitions without the order in which types
were registered.

* `get?_possibleTypes` — what is kept for the type of a name;
* `possibleTypes_interface`, `map_name_possibleTypes_union` — the object types of interfaces and unions;
* `nodup_possibleTypes` — no object type is among them twice.
-/

namespace GraphQL

/-- The type as an object type that declares the interface of the given name. -/
def TypeDefinition.implementor? (interface : String) (definition : TypeDefinition) :
    Option ObjectType :=
  definition.object?.filter fun object => object.interfaces.contains interface

namespace SchemaBuilder

variable {types : Entries TypeDefinition}

/-- A type of the table is found under its name. -/
theorem WellNamed.get?_name (h : WellNamed types) {definition : TypeDefinition}
    (hmem : definition ∈ Entries.values types) :
    Entries.get? types definition.name = some definition := by
  obtain ⟨entry, hentry, rfl⟩ := List.mem_map.mp hmem
  refine Entries.get?_of_mem h.nodup ?_
  rw [← h.name entry hentry]
  exact hentry

/-- A type that is found has the name that it is found under. -/
theorem WellNamed.name_eq (h : WellNamed types) {name : String} {definition : TypeDefinition}
    (hget : Entries.get? types name = some definition) : definition.name = name :=
  (h.name _ (Entries.get?_mem hget)).symm

/-- The names that are kept for a type. -/
def namesFor (types : Entries TypeDefinition) : TypeDefinition → Option (List String)
  | .interface interface => some (implementors types interface.name)
  | .union union => some union.members.eraseDups
  | .scalar _ | .object _ | .enum _ | .inputObject _ => none

/-- What is kept under the names of some types is found under the name of each. The induction is on the
table; a name that has been passed does not occur again. -/
theorem get?_filterMap_name {β : Type} (f : TypeDefinition → Option β) (h : WellNamed types)
    (name : String) :
    Entries.get? (types.filterMap fun entry => (f entry.2).map (entry.2.name, ·)) name =
      (Entries.get? types name).bind f := by
  induction types with
  | nil => rfl
  | cons entry rest ih =>
    obtain ⟨key, definition⟩ := entry
    have hkey : key = definition.name := h.name _ List.mem_cons_self
    obtain ⟨hnew, hnodup⟩ := List.nodup_cons.mp h.nodup
    have hrest : WellNamed rest := ⟨hnodup, fun other hmem => h.name other (List.mem_cons_of_mem _ hmem)⟩
    rw [List.filterMap_cons]
    by_cases hname : key = name
    -- The name is that of the first type, and of no other one behind it.
    · have hpassed : Entries.get? rest name = none := by
        rw [← Option.not_isSome_iff_eq_none, Entries.get?_isSome_iff_mem_keys, ← hname]
        exact hnew
      rw [Entries.get?, if_pos hname, Option.bind_some]
      cases hfound : f definition with
      | none =>
        rw [Option.map_none, ih hrest, hpassed]
        rfl
      | some kept => exact if_pos (hkey ▸ hname)
    -- The type has another name, and so has what is kept for it.
    · rw [Entries.get?, if_neg hname, ← ih hrest]
      cases f definition with
      | none => rfl
      | some kept => exact if_neg (hkey ▸ hname)

/-- **What is kept for the type of a name.** -/
theorem get?_possibleTypes (h : WellNamed types) (name : String) :
    Entries.get? (possibleTypes types) name = (Entries.get? types name).bind (namesFor types) := by
  have htable : possibleTypes types =
      types.filterMap fun entry => (namesFor types entry.2).map (entry.2.name, ·) := by
    refine List.filterMap_congr fun entry _ => ?_
    cases entry.2 <;> rfl
  rw [htable, get?_filterMap_name _ h]

/-- The implementors of an interface are kept by their names. -/
theorem implementors_eq (interface : String) :
    implementors types interface =
      ((Entries.values types).filterMap (TypeDefinition.implementor? interface)).map
        ObjectType.name := by
  rw [Entries.values, List.filterMap_map, List.map_filterMap, implementors]
  refine List.filterMap_congr fun entry _ => ?_
  rw [Function.comp_apply, TypeDefinition.implementor?]
  cases entry.2 with
  | object object =>
    rw [TypeDefinition.object?, Option.filter_some]
    split <;> simp_all
  | scalar | interface | union | enum | inputObject => rfl

/-- What is made of some items of a list stands in the order of what would be made of all of them. -/
theorem sublist_filterMap {α β : Type} {f : α → Option β} {g : α → β} {items : List α}
    (h : ∀ item ∈ items, ∀ made, f item = some made → made = g item) :
    (items.filterMap f).Sublist (items.map g) := by
  induction items with
  | nil => exact .slnil
  | cons item rest ih =>
    obtain ⟨hfirst, hrest⟩ := List.forall_mem_cons.mp h
    rw [List.filterMap_cons, List.map_cons]
    cases hmade : f item with
    | none => exact (ih hrest).cons _
    | some made => exact hfirst made hmade ▸ (ih hrest).cons_cons made

/-- The first occurrences of some names. The recursion is on how many there are: what follows the first
one no longer has it. -/
theorem nodup_eraseDups : ∀ names : List String, names.eraseDups.Nodup
  | [] => List.nodup_nil
  | name :: rest => by
    rw [List.eraseDups_cons]
    refine List.nodup_cons.mpr ⟨fun hmem => ?_, nodup_eraseDups _⟩
    simp at hmem
termination_by names => names.length
decreasing_by
  simp only [List.length_cons]
  exact Nat.lt_succ_of_le (List.length_filter_le _ _)

theorem nodup_implementors (h : WellNamed types) (interface : String) :
    (implementors types interface).Nodup := by
  refine List.Nodup.sublist (sublist_filterMap fun entry hmem name hname => ?_) h.nodup
  obtain ⟨key, definition⟩ := entry
  cases definition with
  | object object =>
    dsimp only at hname
    split at hname
    · exact (Option.some.inj hname).symm.trans (h.name _ hmem).symm
    · exact nomatch hname
  | scalar | interface | union | enum | inputObject => exact nomatch hname

end SchemaBuilder

open SchemaBuilder

namespace TypeSystem

variable {system : TypeSystem} (hnamed : WellNamed system.types)
  (hpossible : system.possible = SchemaBuilder.possibleTypes system.types)

theorem object?_eq_some_iff {name : String} {object : ObjectType} :
    system.object? name = some object ↔ system.type? name = some (.object object) := by
  rw [object?]
  cases system.type? name with
  | none => simp
  | some definition => cases definition <;> simp [TypeDefinition.object?]

include hnamed

/-- Object types of the table are found by their names. -/
theorem filterMap_object?_map_name {objects : List ObjectType}
    (h : ∀ object ∈ objects, TypeDefinition.object object ∈ Entries.values system.types) :
    (objects.map ObjectType.name).filterMap system.object? = objects := by
  induction objects with
  | nil => rfl
  | cons object rest ih =>
    obtain ⟨hfirst, hrest⟩ := List.forall_mem_cons.mp h
    have hfound : system.object? object.name = some object :=
      object?_eq_some_iff.mpr (hnamed.get?_name hfirst)
    rw [List.map_cons, List.filterMap_cons, hfound, ih hrest]

/-- Names of object types are the names of what is found under them. -/
theorem map_name_filterMap_object? {names : List String}
    (h : ∀ name ∈ names, NamesObject system.types name) :
    (names.filterMap system.object?).map ObjectType.name = names := by
  induction names with
  | nil => rfl
  | cons name rest ih =>
    obtain ⟨⟨object, hobject⟩, hrest⟩ := List.forall_mem_cons.mp h
    have hfound : system.object? name = some object := object?_eq_some_iff.mpr hobject
    have hname : object.name = name := hnamed.name_eq hobject
    rw [List.filterMap_cons, hfound, List.map_cons, hname, ih hrest]

include hpossible

theorem possibleNames_eq (name : String) :
    system.possibleNames name = ((system.type? name).bind (namesFor system.types)).getD [] := by
  rw [possibleNames, hpossible, get?_possibleTypes hnamed, type?]

/-- **An interface stands for the object types that declare it**, in the order of the table. -/
theorem possibleTypes_interface {name : String} {interface : InterfaceType}
    (h : system.type? name = some (.interface interface)) :
    system.possibleTypes name =
      (Entries.values system.types).filterMap (TypeDefinition.implementor? name) := by
  -- The type that is found under the name has this name itself.
  have hname : interface.name = name := hnamed.name_eq h
  rw [possibleTypes, possibleNames_eq hnamed hpossible, h, Option.bind_some, namesFor, hname,
    Option.getD_some, implementors_eq]
  -- All implementors are object types of the table, so that none is lost when they are looked up.
  refine filterMap_object?_map_name hnamed fun object hmem => ?_
  obtain ⟨definition, hdefinition, himplementor⟩ := List.mem_filterMap.mp hmem
  obtain ⟨hobject, -⟩ := Option.filter_eq_some_iff.mp himplementor
  cases definition with
  | object other =>
    obtain rfl : other = object := Option.some.inj hobject
    exact hdefinition
  | scalar | interface | union | enum | inputObject => exact nomatch hobject

/-- **A union stands for its members**, in the order in which it lists them. -/
theorem map_name_possibleTypes_union {name : String} {union : UnionType}
    (h : system.type? name = some (.union union))
    (hmembers : ∀ member ∈ union.members, NamesObject system.types member) :
    (system.possibleTypes name).map ObjectType.name = union.members.eraseDups := by
  rw [possibleTypes, possibleNames_eq hnamed hpossible, h, Option.bind_some, namesFor,
    Option.getD_some]
  refine map_name_filterMap_object? hnamed fun member hmem => ?_
  exact hmembers member (List.mem_eraseDups.mp hmem)

/-- **No object type is among the possible types of a type twice.** -/
theorem nodup_possibleTypes (name : String) :
    ((system.possibleTypes name).map ObjectType.name).Nodup := by
  -- Each name finds one object type at most, which has that name.
  have hfound : ((system.possibleNames name).filterMap fun member =>
      (system.object? member).map ObjectType.name).Sublist ((system.possibleNames name).map id) := by
    refine sublist_filterMap fun member _ found hfound => ?_
    obtain ⟨object, hobject, rfl⟩ := Option.map_eq_some_iff.mp hfound
    exact hnamed.name_eq (object?_eq_some_iff.mp hobject)
  rw [possibleTypes, List.map_filterMap]
  refine List.Nodup.sublist hfound ?_
  -- It is left to show that the names are distinct, for interfaces and for unions.
  rw [List.map_id, possibleNames_eq hnamed hpossible]
  cases system.type? name with
  | none => exact List.nodup_nil
  | some definition =>
    cases definition with
    | interface interface => exact nodup_implementors hnamed interface.name
    | union union => exact nodup_eraseDups _
    | scalar | object | enum | inputObject => exact List.nodup_nil

end TypeSystem

end GraphQL
