import GraphQL.Coercion.Constant
import GraphQL.Proofs.Entries
import GraphQL.Proofs.Wrapping.Lists
import Mathlib.Data.List.Induction

/-!
# Values of input types

What a value has to be like to be one of an input type, whichever way it came about.

* `FilledBy P definitions entries` — the entries belong to declared fields, in the order of the
  declarations, and each field has what is asked of it, with a value or without one;
* `ConformsToInput`, `ConformsToNamed`, `ConformsToField` — values of a type with its wrappers, of a
  named type, and of a field of an input object;
* `TypeSystem.NeverNull` — what is asked of scalars and enums so that only null is null;
* `ConformsToInput.wrapInLists` — a single value in as many lists as the type has conforms;
* `ConformsToInput.ofNullable` — so does a value of the nullable version of a type, unless it is
  null.
-/

namespace GraphQL

/-- Entries for declared fields, in the order of the declarations. Each field has what is asked of
it, with the value of its entry or, if it is left out, without any. -/
inductive FilledBy (P : InputValueDefinition → Option Value → Prop) :
    List InputValueDefinition → Entries Value → Prop
  | nil : FilledBy P [] []
  | present {definition : InputValueDefinition} {definitions : List InputValueDefinition}
      {value : Value} {entries : Entries Value} (h : P definition (some value))
      (rest : FilledBy P definitions entries) :
      FilledBy P (definition :: definitions) ((definition.name, value) :: entries)
  | absent {definition : InputValueDefinition} {definitions : List InputValueDefinition}
      {entries : Entries Value} (h : P definition none) (rest : FilledBy P definitions entries) :
      FilledBy P (definition :: definitions) entries

namespace FilledBy

variable {P Q : InputValueDefinition → Option Value → Prop}
  {definitions : List InputValueDefinition} {entries : Entries Value}

/-- The keys are names of declared fields, in the order of the declarations. -/
theorem keys_sublist (h : FilledBy P definitions entries) :
    (Entries.keys entries).Sublist (definitions.map InputValueDefinition.name) := by
  induction h with
  | nil => exact .slnil
  | present _ _ ih => exact ih.cons_cons _
  | absent _ _ ih => exact ih.cons _

/-- An entry is that of a declared field, and has what is asked of it. -/
theorem exists_definition (h : FilledBy P definitions entries) {entry : String × Value}
    (hmem : entry ∈ entries) :
    ∃ definition ∈ definitions, definition.name = entry.1 ∧ P definition (some entry.2) := by
  induction h with
  | nil => exact absurd hmem List.not_mem_nil
  | @present definition _ _ _ hvalue _ ih =>
    rcases List.mem_cons.mp hmem with rfl | hmem
    -- The entry is that of the first definition, or one of the entries behind it.
    · exact ⟨definition, List.mem_cons_self, rfl, hvalue⟩
    · obtain ⟨other, hother, hname⟩ := ih hmem
      exact ⟨other, List.mem_cons_of_mem _ hother, hname⟩
  | absent _ _ ih =>
    obtain ⟨other, hother, hname⟩ := ih hmem
    exact ⟨other, List.mem_cons_of_mem _ hother, hname⟩

/-- A declared field has what is asked of it, with a value among the entries or without one. -/
theorem exists_value (h : FilledBy P definitions entries) {definition : InputValueDefinition}
    (hmem : definition ∈ definitions) :
    ∃ value, P definition value ∧ ∀ found, value = some found →
      (definition.name, found) ∈ entries := by
  induction h with
  | nil => exact absurd hmem List.not_mem_nil
  | @present first _ value _ hvalue _ ih =>
    -- The definition is the first one, which has a value here, or one of those behind it.
    rcases List.mem_cons.mp hmem with rfl | hmem
    · exact ⟨some value, hvalue, fun found hfound => Option.some.inj hfound ▸ List.mem_cons_self⟩
    · obtain ⟨other, hother, hentries⟩ := ih hmem
      exact ⟨other, hother, fun found hfound => List.mem_cons_of_mem _ (hentries found hfound)⟩
  | absent hnone _ ih =>
    -- The definition is the first one, which has no value here, or one of those behind it.
    rcases List.mem_cons.mp hmem with rfl | hmem
    · exact ⟨none, hnone, fun _ hfound => absurd hfound (by simp)⟩
    · exact ih hmem

theorem mono (h : FilledBy P definitions entries)
    (himp : ∀ definition value, P definition value → Q definition value) :
    FilledBy Q definitions entries := by
  induction h with
  | nil => exact .nil
  | present hvalue _ ih => exact .present (himp _ _ hvalue) ih
  | absent hnone _ ih => exact .absent (himp _ _ hnone) ih

end FilledBy

/-! ### Conformance -/

mutual

/-- The value is one of the named type: an output of a scalar, an internal value of an enum, or an
input object with its declared fields. -/
inductive ConformsToNamed (types : TypeSystem) : String → Value → Prop
  | scalar {name : String} {scalar : ScalarType} {source value : Value}
      (htype : types.type? name = some (.scalar scalar)) (hsource : source ≠ .null)
      (houtput : scalar.parseValue source = .ok value ∨ scalar.parseLiteral source = .ok value) :
      ConformsToNamed types name value
  | enum {name written : String} {type : EnumType} {value : Value}
      (htype : types.type? name = some (.enum type)) (hvalue : type.parse? written = some value) :
      ConformsToNamed types name value
  | object {name : String} {object : InputObjectType} {entries : Entries Value}
      (htype : types.type? name = some (.inputObject object))
      (hfields : FilledBy (ConformsToField types) (Entries.values object.fields.entries) entries) :
      ConformsToNamed types name (.object entries)

/-- The value is one of the field. The field may be left out if it may be null and has no default.
-/
inductive ConformsToField (types : TypeSystem) : InputValueDefinition → Option Value → Prop
  | value {definition : InputValueDefinition} {value : Value}
      (h : ConformsToInput types definition.type value) : ConformsToField types definition (some value)
  | absent {definition : InputValueDefinition} (hnullable : definition.type.isNonNull = false)
      (hfallback : definition.fallback = none) : ConformsToField types definition none

/-- The value is one of the type: null where that is allowed, a list of values of the item type, or
a value of the named type. -/
inductive ConformsToInput (types : TypeSystem) : TypeRef → Value → Prop
  | null {ty : TypeRef} (hnullable : ty.isNonNull = false) : ConformsToInput types ty .null
  | list {ty item : TypeRef} {values : List Value} (hitem : ty.itemType? = some item)
      (hvalues : ∀ value ∈ values, ConformsToInput types item value) :
      ConformsToInput types ty (.list values)
  | named {ty : TypeRef} {value : Value} (hlist : ty.isList = false)
      (hvalue : ConformsToNamed types ty.name value) : ConformsToInput types ty value

end

/-- No scalar reads anything but null as null, and no enum has null as an internal value. -/
structure TypeSystem.NeverNull (types : TypeSystem) : Prop where
  scalars : ∀ name scalar, types.type? name = some (.scalar scalar) → ∀ source, source ≠ .null →
    scalar.parseValue source ≠ .ok .null ∧ scalar.parseLiteral source ≠ .ok .null
  enums : ∀ name type, types.type? name = some (.enum type) →
    ∀ known ∈ Entries.values type.values.entries, known.value ≠ .null

namespace ConformsToNamed

variable {types : TypeSystem}

/-- A value of a named type is not null. -/
theorem ne_null (htypes : types.NeverNull) {name : String} {value : Value}
    (h : ConformsToNamed types name value) : value ≠ .null := by
  cases h with
  -- What a scalar makes of a value other than null is not null.
  | scalar htype hsource houtput =>
    rintro rfl
    obtain ⟨hvalue, hliteral⟩ := htypes.scalars _ _ htype _ hsource
    exact houtput.elim hvalue hliteral
  | @enum _ _ type value htype hvalue =>
    obtain ⟨known, hknown, rfl⟩ := Option.map_eq_some_iff.mp hvalue
    -- The value is that of a name, which is one of the values of the enum.
    have hmem : known ∈ Entries.values type.values.entries := List.mem_map_of_mem (Entries.get?_mem hknown)
    exact htypes.enums _ _ htype known hmem
  | object _ _ => exact Value.noConfusion

end ConformsToNamed

namespace ConformsToInput

variable {types : TypeSystem}

/-- **Where a type excludes null there is none.** -/
theorem ne_null (htypes : types.NeverNull) {ty : TypeRef} {value : Value}
    (h : ConformsToInput types ty value) (hnonNull : ty.isNonNull = true) : value ≠ .null := by
  cases h with
  | null hnullable => exact absurd (hnonNull.symm.trans hnullable) (by decide)
  | list _ _ => exact Value.noConfusion
  | named _ hvalue => exact hvalue.ne_null htypes

/-- **A single value in as many lists as the type has.** The induction is on the lists, from the
outermost one on: each is a list of one item, which conforms to the type that has one list less. -/
theorem wrapInLists {ty : TypeRef} {value : Value} (h : ConformsToNamed types ty.name value) :
    ConformsToInput types ty (Coercion.wrapInLists ty value) := by
  -- The type loses a list with every step while the value to be wrapped stays the same, so this is
  -- for every type that has as many lists.
  have hlists : ∀ (wrappings : List ListWrapping) (ty : TypeRef),
      ConformsToNamed types ty.name value → ty.wrapping.listCount = wrappings.length →
        ConformsToInput types ty (wrappings.foldl (fun inner _ => .list [inner]) value) := by
    intro wrappings
    induction wrappings using List.reverseRecOn with
    | nil =>
      intro ty hvalue hcount
      refine .named ?_ hvalue
      rw [TypeRef.isList, Wrapping.isList, hcount]
      rfl
    | append_singleton inner outer ih =>
      intro ty hvalue hcount
      rw [List.length_append, List.length_singleton] at hcount
      have hlist : ty.wrapping.isList := by
        rw [Wrapping.isList, hcount]
        exact decide_eq_true (Nat.succ_pos _)
      obtain ⟨wrapping, hwrapping⟩ :=
        Option.isSome_iff_exists.mp (Wrapping.withoutList?_isSome_iff.mpr hlist)
      have hitem : ty.itemType? = some ⟨ty.name, wrapping⟩ := by rw [TypeRef.itemType?, hwrapping]; rfl
      have hinner : wrapping.listCount = inner.length := by
        have houter := Wrapping.listCount_withoutList? hwrapping
        omega
      -- The outermost list has one item, which is the value in the other lists.
      rw [List.foldl_append]
      refine .list hitem fun only honly => ?_
      rw [List.mem_singleton.mp honly]
      exact ih ⟨ty.name, wrapping⟩ hvalue hinner
  refine hlists ty.wrapping.listWrappings ty h ?_
  rw [Wrapping.listWrappings, List.length_map, List.length_range]

end ConformsToInput

/-! ### Nullable types -/

/-- The type with null excluded. -/
def TypeRef.withNonNull (ty : TypeRef) : TypeRef := { ty with wrapping := ty.wrapping.wrapNonNull }

/-- **A value of the nullable version of a type** is one of the type, unless it is null. -/
theorem ConformsToInput.ofNullable {types : TypeSystem} {ty : TypeRef} {value : Value}
    (h : ConformsToInput types ty value) (hcount : ty.wrapping.listCount ≤ Wrapping.maxLists)
    (hvalue : value ≠ .null) : ConformsToInput types ty.withNonNull value := by
  cases h with
  | null _ => exact absurd rfl hvalue
  | list hitem hvalues =>
    -- The items have the same type, with or without the null that is excluded.
    refine .list ?_ hvalues
    rw [TypeRef.itemType?, TypeRef.withNonNull, Wrapping.withoutList?_wrapNonNull hcount]
    exact hitem
  | named hlist hnamed =>
    refine .named ?_ hnamed
    -- The outermost null that is excluded does not change the number of lists.
    have hlists : ty.wrapping.wrapNonNull.isList = ty.wrapping.isList := by
      rw [Bool.eq_iff_iff, ← Wrapping.withoutList?_isSome_iff, ← Wrapping.withoutList?_isSome_iff,
        Wrapping.withoutList?_wrapNonNull hcount]
    rw [TypeRef.isList, TypeRef.withNonNull, hlists]
    exact hlist

end GraphQL
