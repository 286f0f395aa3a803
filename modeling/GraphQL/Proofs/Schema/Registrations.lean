import GraphQL.Proofs.Schema.AttachedCallbacks

/-!
# What becomes of registered types

Two calls of a builder put types into its table: one for a type of the user, which is remembered, and one
for the extra scalars, which is not. A name that is registered twice is refused. But the extra scalars
take their names whoever has them, so that the order of the calls decides: a type of the user that is
registered after them stays, and one that is registered before them is lost without an error.

* `BuilderCall.writes`, `get?_types_ofCalls` — the table holds what was last written under a name;
* `finish_of_registered_twice` — a name that is registered twice;
* `BuilderCall.TakesName`, `registered_types_kept` — all other registrations: they are kept as they are,
  with the callbacks of later calls, unless the extra scalars take the name afterwards;
* `registered_type_lost` — one that is lost.
-/

namespace GraphQL

/-- The entries of scalars in a table of types. -/
def ScalarType.registrations (scalars : List ScalarType) : List (String × Registration) :=
  scalars.map fun scalar => (scalar.name, ⟨.scalar scalar, .none⟩)

namespace BuilderCall

/-- What a call writes to the table of types. -/
def writes : BuilderCall → List (String × Registration)
  | .register registration => [(registration.definition.name, registration)]
  | .withExtraScalars => ScalarType.registrations ScalarType.extras
  | _ => []

/-- The call is for the extra scalars, and one of them has the name. -/
def TakesName (name : String) (call : BuilderCall) : Prop :=
  call = .withExtraScalars ∧ ∃ scalar ∈ ScalarType.extras, scalar.name = name

end BuilderCall

namespace SchemaBuilder

/-! ### Writes to the table -/

/-- What some writes leave under a name: the last one counts. -/
def written? (writes : List (String × Registration)) (name : String) : Option Registration :=
  (writes.filterMap fun write => if write.1 = name then some write.2 else none).getLast?

theorem written?_append (writes later : List (String × Registration)) (name : String) :
    written? (writes ++ later) name = (written? later name).or (written? writes name) := by
  rw [written?, List.filterMap_append, List.getLast?_append, written?, written?]

theorem written?_singleton (name : String) (registration : Registration) (other : String) :
    written? [(name, registration)] other = if name = other then some registration else none := by
  by_cases h : name = other <;> simp [written?, h]

/-- Nothing else is written under a name. -/
theorem written?_eq_none {writes : List (String × Registration)} {name : String}
    (h : ∀ write ∈ writes, write.1 ≠ name) : written? writes name = none := by
  rw [written?, List.getLast?_eq_none_iff, List.filterMap_eq_nil_iff]
  exact fun write hmem => if_neg (h write hmem)

/-- A table after some writes. The induction is on the writes, from the last one on. -/
theorem get?_foldl_insert (writes : List (String × Registration)) (table : Entries Registration)
    (name : String) :
    Entries.get? (writes.foldl (fun table write => Entries.insert table write.1 write.2) table) name =
      (written? writes name).or (Entries.get? table name) := by
  induction writes using List.reverseRecOn with
  | nil => rfl
  | append_singleton writes write ih =>
    obtain ⟨key, registration⟩ := write
    rw [List.foldl_append, List.foldl_cons, List.foldl_nil, written?_append, written?_singleton]
    -- The last write decides what is found under its own name, and nothing about other names.
    by_cases hkey : key = name
    · subst hkey
      rw [Entries.get?_insert_self, if_pos rfl]
      rfl
    · rw [Entries.get?_insert_of_ne _ _ hkey, if_neg hkey, ih]
      rfl

theorem insertScalars_eq (table : Entries Registration) (scalars : List ScalarType) :
    insertScalars table scalars = (ScalarType.registrations scalars).foldl
      (fun table write => Entries.insert table write.1 write.2) table := by
  rw [insertScalars, ScalarType.registrations, List.foldl_map]

variable {query : String} {mutation subscription : Option String} {calls : List BuilderCall}

/-- The table after some calls is what they have written, on top of the scalars of every schema. -/
theorem types_ofCalls (calls : List BuilderCall) :
    (ofCalls query mutation subscription calls).types =
      (calls.flatMap BuilderCall.writes).foldl
        (fun table write => Entries.insert table write.1 write.2)
        (insertScalars [] ScalarType.builtins) := by
  refine ofCalls_induction (P := fun calls builder => builder.types =
    (calls.flatMap BuilderCall.writes).foldl
      (fun table write => Entries.insert table write.1 write.2)
      (insertScalars [] ScalarType.builtins)) rfl ?_ calls
  intro calls builder next h
  rw [List.flatMap_append, List.foldl_append, ← h, List.flatMap_singleton]
  cases next with
  | withExtraScalars => exact insertScalars_eq builder.types ScalarType.extras
  | register | withConfig | resolver | subscriber | wrapResolver => rfl

/-- **Under a name stands what was last written there**, or a scalar that every schema has. -/
theorem get?_types_ofCalls (calls : List BuilderCall) (name : String) :
    Entries.get? (ofCalls query mutation subscription calls).types name =
      (written? (calls.flatMap BuilderCall.writes) name).or
        (Entries.get? (insertScalars [] ScalarType.builtins) name) := by
  rw [types_ofCalls, get?_foldl_insert]

/-! ### Writes after a registration -/

/-- Calls that register another name, or none, write nothing under a name unless they are for an extra
scalar of that name. -/
theorem written?_eq_none_of_not_taken {name : String}
    (hname : name ∉ calls.filterMap BuilderCall.registeredName?)
    (htaken : ∀ call ∈ calls, ¬ call.TakesName name) :
    written? (calls.flatMap BuilderCall.writes) name = none := by
  -- A write under the name would be a registration of it, or one of the extra scalars.
  refine written?_eq_none fun write hwrite heq => ?_
  obtain ⟨call, hcall, hwrite⟩ := List.mem_flatMap.mp hwrite
  cases call with
  | register registration =>
    obtain rfl := List.mem_singleton.mp hwrite
    exact hname (List.mem_filterMap.mpr ⟨_, hcall, congrArg some heq⟩)
  | withExtraScalars =>
    obtain ⟨scalar, hscalar, rfl⟩ := List.mem_map.mp hwrite
    exact htaken _ hcall ⟨rfl, scalar, hscalar, heq⟩
  | withConfig | resolver | subscriber | wrapResolver => cases hwrite

/-- The extra scalars have different names, so each of them is what their call writes under its name. -/
theorem written?_extras {scalar : ScalarType} (h : scalar ∈ ScalarType.extras) :
    written? (ScalarType.registrations ScalarType.extras) scalar.name =
      some ⟨.scalar scalar, .none⟩ := by
  rw [ScalarType.extras] at h
  rcases List.mem_cons.mp h with rfl | h
  · rfl
  · obtain rfl := List.mem_singleton.mp h
    rfl

/-- A call for the extra scalars takes their names, whatever else is called for but registrations of the
name. The induction is on the calls. -/
theorem written?_of_taken {scalar : ScalarType} (hscalar : scalar ∈ ScalarType.extras)
    (hname : scalar.name ∉ calls.filterMap BuilderCall.registeredName?)
    (htaken : .withExtraScalars ∈ calls) :
    written? (calls.flatMap BuilderCall.writes) scalar.name = some ⟨.scalar scalar, .none⟩ := by
  induction calls with
  | nil => cases htaken
  | cons call rest ih =>
    rw [List.flatMap_cons, written?_append]
    have hrest : scalar.name ∉ rest.filterMap BuilderCall.registeredName? := by
      intro hmem
      obtain ⟨other, hother, heq⟩ := List.mem_filterMap.mp hmem
      exact hname (List.mem_filterMap.mpr ⟨other, List.mem_cons_of_mem _ hother, heq⟩)
    -- The last call for the extra scalars counts, and nothing is written under the name after it.
    by_cases hlater : .withExtraScalars ∈ rest
    · rw [ih hrest hlater]
      rfl
    · have hnone : written? (rest.flatMap BuilderCall.writes) scalar.name = none := by
        refine written?_eq_none_of_not_taken hrest fun other hother htakes => hlater ?_
        rw [← htakes.1]
        exact hother
      rcases List.mem_cons.mp htaken with rfl | hmem
      · rw [hnone]
        exact written?_extras hscalar
      · exact absurd hmem hlater

/-! ### Finished schemas -/

/-- **A name that is registered twice is refused.** -/
theorem finish_of_registered_twice (h : ¬ (calls.filterMap BuilderCall.registeredName?).Nodup) :
    ∃ name, (ofCalls query mutation subscription calls).finish = .error (.duplicateType name) := by
  have hduplicates :=
    (@duplicates_ofCalls_eq_nil_iff query mutation subscription calls).not.mpr h
  obtain ⟨name, rest, hlist⟩ := List.exists_cons_of_ne_nil hduplicates
  refine ⟨name, ?_⟩
  unfold finish
  rw [hlist]
  rfl

/-- **Registered types are kept** as they are, with the callbacks of the calls for their fields, unless a
later call for the extra scalars takes the name: then that scalar is all that is left under it. No name
is registered twice. -/
theorem registered_types_kept :
    (¬ (calls.filterMap BuilderCall.registeredName?).Nodup →
      ∃ name, (ofCalls query mutation subscription calls).finish = .error (.duplicateType name)) ∧
    ∀ schema, (ofCalls query mutation subscription calls).finish = .ok schema →
      ∀ earlier registration later, calls = earlier ++ .register registration :: later →
        ((∀ call ∈ later, ¬ call.TakesName registration.definition.name) →
          schema.types.type? registration.definition.name = some registration.definition ∧
          (schema.typeHooks registration.definition.name).resolveType =
            registration.hooks.resolveType ∧
          ∀ fieldName, schema.fieldHooks registration.definition.name fieldName =
            (registration.hooks.field fieldName).after calls
              (registration.definition.name, fieldName)) ∧
        ∀ scalar ∈ ScalarType.extras, scalar.name = registration.definition.name →
          .withExtraScalars ∈ later →
            schema.types.type? registration.definition.name = some (.scalar scalar) := by
  refine ⟨finish_of_registered_twice, ?_⟩
  rintro schema hschema earlier registration later rfl
  have haccepted := accepted_of_finish hschema
  have htype : schema.types.type? registration.definition.name =
      (Entries.get? (ofCalls query mutation subscription
        (earlier ++ .register registration :: later)).types registration.definition.name).map
        Registration.definition := by
    rw [haccepted.types]
    exact Entries.get?_map Registration.definition _ _
  -- No other call registers the name.
  have hname : registration.definition.name ∉ later.filterMap BuilderCall.registeredName? := by
    have hnodup := duplicates_ofCalls_eq_nil_iff.mp haccepted.duplicates
    rw [List.filterMap_append, List.filterMap_cons] at hnodup
    exact (List.nodup_cons.mp (List.nodup_append.mp hnodup).2.1).1
  -- What is found is the last write: one of the later calls, or this one.
  have hget := @get?_types_ofCalls query mutation subscription
    (earlier ++ .register registration :: later) registration.definition.name
  rw [List.flatMap_append, List.flatMap_cons, written?_append, written?_append,
    BuilderCall.writes, written?_singleton, if_pos rfl] at hget
  constructor
  -- No later call writes under the name, so that the registration stands.
  · intro hkept
    rw [written?_eq_none_of_not_taken hname hkept] at hget
    refine ⟨by rw [htype, hget]; rfl, ?_, fun fieldName => ?_⟩
    · rw [resolveType_of_finish hschema, hget]
      rfl
    · rw [fieldHooks_of_finish hschema, fieldHooksIn, hget]
      rfl
  -- The call for the extra scalars is later and writes over the registration.
  · intro scalar hscalar hsame htaken
    rw [← hsame] at hname hget
    rw [written?_of_taken hscalar hname htaken] at hget
    rw [htype, ← hsame, hget]
    rfl

namespace JsonSample

/-- A field of arbitrary values. -/
def queryType : Registration where
  definition := .object {
    name := "Query"
    description := none
    fields := .ofList [⟨"a", none, .named "JSON", .empty⟩]
    interfaces := []
    isTypeOf := none }
  hooks := .none

/-- A scalar of the user, with the name of an extra one. -/
def ownScalar : Registration where
  definition := .scalar { ScalarType.new "JSON" with serialize := fun _ => .ok (.string "mine") }
  hooks := .none

/-- A wrapper that runs the resolver it is given. -/
def passOn (resolver : Resolver) : Resolver := fun ctx => resolver ctx

/-- The scalar of the user is registered after the extra ones, and the field has a wrapped resolver. -/
def configuration : List BuilderCall :=
  [.withExtraScalars, .wrapResolver "Query" "a" passOn, .register ownScalar, .register queryType,
    .resolver "Query" "a" .payload]

end JsonSample

/-- The scalar of the user is kept if it is registered after the extra ones, and so is the field with its
resolver; registering the scalar once more is refused. It is lost if it is registered before them. -/
theorem registered_types_kept_sample :
    (∃ schema, (ofCalls "Query" none none JsonSample.configuration).finish = .ok schema ∧
      schema.types.type? "JSON" = some JsonSample.ownScalar.definition ∧
      (schema.fieldHooks "Query" "a").resolver = some .payload) ∧
    (∃ name, (ofCalls "Query" none none
      (JsonSample.configuration ++ [BuilderCall.register JsonSample.ownScalar])).finish =
        .error (.duplicateType name)) ∧
    ∃ schema, (ofCalls "Query" none none [.register JsonSample.queryType,
        .register JsonSample.ownScalar, .withExtraScalars]).finish = .ok schema ∧
      schema.types.type? "JSON" = some (.scalar .json) := by
  -- The scalar of the user would be registered twice.
  have htwice : ¬ ((JsonSample.configuration ++ [BuilderCall.register JsonSample.ownScalar]).filterMap
      BuilderCall.registeredName?).Nodup := by
    decide
  obtain ⟨schema, hschema⟩ :
      ∃ schema, (ofCalls "Query" none none JsonSample.configuration).finish = .ok schema :=
    ⟨_, rfl⟩
  -- It is registered after the extra scalars, and stands.
  have hscalar := (registered_types_kept.2 schema hschema
    [.withExtraScalars, .wrapResolver "Query" "a" JsonSample.passOn] JsonSample.ownScalar
    [.register JsonSample.queryType, .resolver "Query" "a" .payload] rfl).1
      (by simp [BuilderCall.TakesName])
  have hquery := (registered_types_kept.2 schema hschema
    [.withExtraScalars, .wrapResolver "Query" "a" JsonSample.passOn, .register JsonSample.ownScalar]
    JsonSample.queryType [.resolver "Query" "a" .payload] rfl).1 (by simp [BuilderCall.TakesName])
  obtain ⟨other, hother⟩ : ∃ schema, (ofCalls "Query" none none [.register JsonSample.queryType,
      .register JsonSample.ownScalar, .withExtraScalars]).finish = .ok schema :=
    ⟨_, rfl⟩
  -- It is registered before the extra scalars, and is lost.
  have hlost := (registered_types_kept.2 other hother [.register JsonSample.queryType]
    JsonSample.ownScalar [.withExtraScalars] rfl).2 .json (by simp [ScalarType.extras]) rfl (by simp)
  exact ⟨⟨schema, hschema, hscalar.1, congrArg FieldHooks.resolver (hquery.2.2 "a")⟩,
    registered_types_kept.1 htwice, other, hother, hlost⟩

/-- **A registered type can be lost** although a schema is made: the extra scalars take its name. -/
theorem registered_type_lost :
    ∃ schema, (ofCalls "Query" none none [.register JsonSample.queryType,
        .register JsonSample.ownScalar, .withExtraScalars]).finish = .ok schema ∧
      schema.types.type? JsonSample.ownScalar.definition.name ≠
        some JsonSample.ownScalar.definition := by
  refine ⟨_, rfl, fun hkept => ?_⟩
  have hdescription := congrArg (·.bind TypeDefinition.description) hkept
  exact absurd hdescription (by decide)

end SchemaBuilder

end GraphQL
