import GraphQL.Proofs.Schema.BuilderCalls
import GraphQL.Proofs.Schema.Finish

/-!
# Well-formed schemas

`SchemaBuilder.finish` makes its checks one after the other and stops at the first that fails. What they
amount to is one condition on the calls and on the table of types that they leave, in which nothing
depends on the order of the checks: `SchemaBuilder.WellFormed`.

Attaching callbacks changes no definition (`definitions_of_attach`), so all checks are about the same
table, also those that are made after callbacks have been attached.

* `checkRoot_eq_ok_iff`, `checkUse_eq_ok_iff`, `checkMembership_eq_ok_iff`, `exists_attach_iff` — what each
  check asks for;
* `exists_finish_iff` — a builder makes a schema exactly if all of them pass;
* `exists_finish_ofCalls_iff` — which is the case exactly if the calls leave a well-formed schema.
-/

namespace GraphQL

namespace SchemaBuilder

/-- The table has an object type under a name. -/
def NamesObject (types : Entries TypeDefinition) (name : String) : Prop :=
  ∃ object, Entries.get? types name = some (.object object)

/-- The named type of a reference is one that fields may have. -/
def NamesOutput (types : Entries TypeDefinition) (ty : TypeRef) : Prop :=
  ∃ definition, Entries.get? types ty.name = some definition ∧ definition.isOutput = true

/-- The named type of a reference is one that arguments and variables may have. -/
def NamesInput (types : Entries TypeDefinition) (ty : TypeRef) : Prop :=
  ∃ definition, Entries.get? types ty.name = some definition ∧ definition.isInput = true

/-- The table has an object or interface type with a field, both given by their names. -/
def HasField (types : Entries TypeDefinition) (target : String × String) : Prop :=
  ∃ definition field, Entries.get? types target.1 = some definition ∧
    definition.field? target.2 = some field

/-- The object type has all fields of the interface of a name. -/
def Implements (types : Entries TypeDefinition) (object : ObjectType) (name : String) : Prop :=
  ∃ interface, Entries.get? types name = some (.interface interface) ∧
    ∀ field ∈ Entries.keys interface.fields.entries, field ∈ Entries.keys object.fields.entries

/-- What is asked of the calls of a builder, of its root types and of the table of types that the calls
leave. -/
structure WellFormed (calls : List BuilderCall) (roots : List String)
    (types : Entries TypeDefinition) : Prop where
  registeredOnce : (calls.filterMap BuilderCall.registeredName?).Nodup
  roots : ∀ name ∈ roots, NamesObject types name
  targets : ∀ target ∈ calls.filterMap BuilderCall.target?, HasField types target
  /-- Fields of object and interface types have types that fields may have. -/
  outputs : ∀ definition ∈ Entries.values types, ∀ fields, definition.fields? = some fields →
    ∀ field ∈ Entries.values fields, NamesOutput types field.type
  /-- Their arguments have types that arguments may have. -/
  arguments : ∀ definition ∈ Entries.values types, ∀ fields, definition.fields? = some fields →
    ∀ field ∈ Entries.values fields, ∀ argument ∈ Entries.values field.arguments.entries,
      NamesInput types argument.type
  inputFields : ∀ object, .inputObject object ∈ Entries.values types →
    ∀ field ∈ Entries.values object.fields.entries, NamesInput types field.type
  interfaces : ∀ object, .object object ∈ Entries.values types →
    ∀ name ∈ object.interfaces, Implements types object name
  members : ∀ union, .union union ∈ Entries.values types →
    ∀ member ∈ union.members, NamesObject types member

variable {types : Entries TypeDefinition}

/-! ### The checks -/

theorem isObject_iff {name : String} :
    (Entries.get? types name).any TypeDefinition.isObject = true ↔ NamesObject types name := by
  unfold NamesObject
  cases Entries.get? types name with
  | none => simp
  | some definition => cases definition <;> simp [TypeDefinition.isObject]

theorem checkRoot_eq_ok_iff {name : String} :
    checkRoot types name = .ok () ↔ NamesObject types name := by
  rw [checkRoot, ← isObject_iff]
  split <;> simp_all

theorem checkMember_eq_ok_iff {union : UnionType} {member : String} :
    checkMember types union member = .ok () ↔ NamesObject types member := by
  rw [checkMember, ← isObject_iff]
  split <;> simp_all

theorem checkInterface_eq_ok_iff {object : ObjectType} {name : String} :
    checkInterface types object name = .ok () ↔ Implements types object name := by
  unfold checkInterface Implements
  split
  next interface hinterface =>
    -- A field of the interface that the object does not have is what the check looks for.
    have hmissing : ((Entries.keys interface.fields.entries).find? fun field =>
        !Entries.contains object.fields.entries field) = none ↔
          ∀ field ∈ Entries.keys interface.fields.entries, field ∈ Entries.keys object.fields.entries := by
      simp only [List.find?_eq_none, Entries.contains, Bool.not_eq_true', Bool.not_eq_false,
        Entries.get?_isSome_iff_mem_keys]
    split
    next hsome => simp [hinterface, ← hmissing, hsome]
    next hnone => simp [hinterface, ← hmissing, hnone]
  -- There is no interface of that name.
  next hother =>
    refine ⟨(nomatch ·), ?_⟩
    rintro ⟨interface, hinterface, -⟩
    exact absurd hinterface (hother interface)

theorem checkUse_output_eq_ok_iff {ty : TypeRef} {location : String} :
    checkUse types ⟨.output, ty, location⟩ = .ok () ↔ NamesOutput types ty := by
  unfold checkUse NamesOutput
  cases Entries.get? types ty.name with
  | none => simp
  | some definition => cases definition <;> simp [TypeDefinition.isOutput]

theorem checkUse_input_eq_ok_iff {ty : TypeRef} {location : String} :
    checkUse types ⟨.input, ty, location⟩ = .ok () ↔ NamesInput types ty := by
  unfold checkUse NamesInput
  cases Entries.get? types ty.name with
  | none => simp
  | some definition => cases definition <;> simp [TypeDefinition.isInput]

/-- The references of a type are those of its fields and their arguments, or of its input fields. -/
theorem checkUses_eq_ok_iff {definition : TypeDefinition} :
    (∀ use ∈ typeUses definition, checkUse types use = .ok ()) ↔
      (∀ fields, definition.fields? = some fields → ∀ field ∈ Entries.values fields,
        NamesOutput types field.type ∧
          ∀ argument ∈ Entries.values field.arguments.entries, NamesInput types argument.type) ∧
      ∀ object, definition = .inputObject object →
        ∀ field ∈ Entries.values object.fields.entries, NamesInput types field.type := by
  -- Fields are checked together with their arguments, for objects as for interfaces.
  have hfields (name : String) (fields : Entries FieldDefinition) :
      (∀ use ∈ fieldUses name fields, checkUse types use = .ok ()) ↔
        ∀ field ∈ Entries.values fields, NamesOutput types field.type ∧
          ∀ argument ∈ Entries.values field.arguments.entries, NamesInput types argument.type := by
    rw [fieldUses, List.forall_mem_flatMap]
    refine forall₂_congr fun field _ => ?_
    rw [List.forall_mem_cons, checkUse_output_eq_ok_iff, List.forall_mem_map]
    simp only [checkUse_input_eq_ok_iff]
  cases definition with
  | object type => simpa [typeUses, TypeDefinition.fields?] using hfields type.name type.fields.entries
  | interface type => simpa [typeUses, TypeDefinition.fields?] using hfields type.name type.fields.entries
  | inputObject type => simp [typeUses, TypeDefinition.fields?, checkUse_input_eq_ok_iff]
  | scalar | union | enum => simp [typeUses, TypeDefinition.fields?]

theorem checkMembership_eq_ok_iff {definition : TypeDefinition} :
    checkMembership types definition = .ok () ↔
      (∀ object, definition = .object object → ∀ name ∈ object.interfaces,
        Implements types object name) ∧
      ∀ union, definition = .union union → ∀ member ∈ union.members, NamesObject types member := by
  cases definition with
  | object type =>
    rw [checkMembership, forM_eq_ok]
    simp [checkInterface_eq_ok_iff]
  | union type =>
    rw [checkMembership, forM_eq_ok]
    simp [checkMember_eq_ok_iff]
  | scalar | interface | enum | inputObject => simp [checkMembership]

/-! ### Attaching callbacks -/

section Attach

variable {α : Type} {change : α → FieldHooks → FieldHooks} {table table' : Entries Registration}

theorem definitions_modify {f : Registration → Registration}
    (hf : ∀ registration, (f registration).definition = registration.definition) (name : String) :
    definitions (Entries.modify table name f) = definitions table := by
  induction table with
  | nil => rfl
  | cons entry rest ih =>
    rw [Entries.modify]
    split
    · simp [definitions, hf]
    · exact congrArg (_ :: ·) ih

/-- A field is found among the registrations if it is found among their definitions. -/
theorem hasField_definitions_iff {typeName fieldName : String} :
    HasField (definitions table) (typeName, fieldName) ↔
      ∃ field, (Entries.get? table typeName).bind (·.definition.field? fieldName) = some field := by
  have hget : Entries.get? (definitions table) typeName =
      (Entries.get? table typeName).map Registration.definition :=
    Entries.get?_map Registration.definition table typeName
  unfold HasField
  rw [hget]
  cases Entries.get? table typeName <;> simp

theorem exists_modifyField_iff {typeName fieldName : String} {f : FieldHooks → FieldHooks} :
    (∃ table', modifyField table typeName fieldName f = .ok table') ↔
      HasField (definitions table) (typeName, fieldName) := by
  rw [hasField_definitions_iff, modifyField]
  split
  next field hfield => simp [hfield]
  next hnone => simp [hnone]

theorem definitions_of_modifyField {typeName fieldName : String} {f : FieldHooks → FieldHooks}
    (h : modifyField table typeName fieldName f = .ok table') :
    definitions table' = definitions table := by
  rw [modifyField] at h
  split at h
  · obtain rfl := Except.ok.inj h
    refine definitions_modify (fun registration => ?_) typeName
    rfl
  · exact nomatch h

/-- **Attaching callbacks changes no definition.** -/
theorem definitions_of_attach {callbacks : List (String × String × α)}
    (h : attach change table callbacks = .ok table') : definitions table' = definitions table := by
  induction callbacks generalizing table with
  | nil =>
    obtain rfl := Except.ok.inj h
    rfl
  | cons callback rest ih =>
    obtain ⟨next, hnext, hrest⟩ := bind_eq_ok.mp h
    exact (ih hrest).trans (definitions_of_modifyField hnext)

/-- Callbacks are attached exactly if all their fields exist. The induction is on the callbacks: those
that have been attached change nothing for the others. -/
theorem exists_attach_iff {callbacks : List (String × String × α)} :
    (∃ table', attach change table callbacks = .ok table') ↔
      ∀ callback ∈ callbacks, HasField (definitions table) (callback.1, callback.2.1) := by
  induction callbacks generalizing table with
  | nil => exact ⟨fun _ _ hmem => absurd hmem List.not_mem_nil, fun _ => ⟨table, rfl⟩⟩
  | cons callback rest ih =>
    rw [List.forall_mem_cons, ← exists_modifyField_iff (f := change callback.2.2)]
    constructor
    -- The first callback finds its field, and the others find theirs among the same definitions.
    · rintro ⟨table', htable'⟩
      obtain ⟨next, hnext, hrest⟩ := bind_eq_ok.mp htable'
      refine ⟨⟨next, hnext⟩, ?_⟩
      rw [← definitions_of_modifyField hnext]
      exact ih.mp ⟨table', hrest⟩
    · rintro ⟨⟨next, hnext⟩, hrest⟩
      rw [← definitions_of_modifyField hnext] at hrest
      obtain ⟨table', htable'⟩ := ih.mpr hrest
      exact ⟨table', bind_eq_ok.mpr ⟨next, hnext, htable'⟩⟩

end Attach

/-! ### Finishing -/

/-- **A builder makes a schema exactly if all checks pass.** The checks are made one after the
other, and callbacks are attached in between. Attaching them does not change the definitions, so
that each check can be stated about the same ones. -/
theorem exists_finish_iff {builder : SchemaBuilder} :
    (∃ schema, builder.finish = .ok schema) ↔
      builder.duplicates = [] ∧
      (∀ name ∈ builder.roots, NamesObject (definitions builder.types) name) ∧
      (∀ target ∈ builder.targets, HasField (definitions builder.types) target) ∧
      (∀ definition ∈ Entries.values (definitions builder.types),
        ∀ use ∈ typeUses definition, checkUse (definitions builder.types) use = .ok ()) ∧
      ∀ definition ∈ Entries.values (definitions builder.types),
        checkMembership (definitions builder.types) definition = .ok () := by
  constructor
  · rintro ⟨schema, hschema⟩
    have haccepted := accepted_of_finish hschema
    obtain ⟨resolved, subscribed, wrapped, hresolved, hsubscribed, hwrapped, -⟩ :=
      attached_of_finish hschema
    have hsubscribers := exists_attach_iff.mp ⟨subscribed, hsubscribed⟩
    have hwrappers := exists_attach_iff.mp ⟨wrapped, hwrapped⟩
    -- Attaching does not change the definitions, so that all callbacks are checked against the
    -- first ones.
    rw [definitions_of_attach hresolved] at hsubscribers
    rw [definitions_of_attach hsubscribed, definitions_of_attach hresolved] at hwrappers
    refine ⟨haccepted.duplicates, fun name hmem => checkRoot_eq_ok_iff.mp (haccepted.roots name hmem),
      ?_, List.forall_mem_flatMap.mp haccepted.uses, haccepted.memberships⟩
    rw [targets, List.forall_mem_append, List.forall_mem_append, List.forall_mem_map,
      List.forall_mem_map, List.forall_mem_map]
    exact ⟨⟨exists_attach_iff.mp ⟨resolved, hresolved⟩, hsubscribers⟩, hwrappers⟩
  · rintro ⟨hduplicates, hroots, htargets, huses, hmemberships⟩
    rw [targets, List.forall_mem_append, List.forall_mem_append, List.forall_mem_map,
      List.forall_mem_map, List.forall_mem_map] at htargets
    obtain ⟨⟨hresolvers, hsubscribers⟩, hwrappers⟩ := htargets
    -- The callbacks are attached one table after the other, and the definitions stay what they are.
    obtain ⟨resolved, hresolved⟩ := exists_attach_iff.mpr hresolvers
    rw [← definitions_of_attach hresolved] at hsubscribers hwrappers
    obtain ⟨subscribed, hsubscribed⟩ := exists_attach_iff.mpr hsubscribers
    rw [← definitions_of_attach hsubscribed] at hwrappers
    obtain ⟨wrapped, hwrapped⟩ := exists_attach_iff.mpr hwrappers
    unfold finish
    rw [hduplicates]
    -- The checks are made in the order in which the builder makes them.
    refine ⟨_, bind_eq_ok.mpr ⟨(), forM_eq_ok.mpr ?_, bind_eq_ok.mpr ⟨resolved, hresolved,
      bind_eq_ok.mpr ⟨subscribed, hsubscribed, bind_eq_ok.mpr ⟨wrapped, hwrapped,
        bind_eq_ok.mpr ⟨(), forM_eq_ok.mpr ?_, bind_eq_ok.mpr ⟨(), forM_eq_ok.mpr ?_, rfl⟩⟩⟩⟩⟩⟩⟩
    · exact fun name hmem => checkRoot_eq_ok_iff.mpr (hroots name hmem)
    · exact List.forall_mem_flatMap.mpr huses
    · exact hmemberships

/-- **A builder makes a schema exactly if its calls leave a well-formed one.** Each part of what is
well-formed is one of the checks, stated about the calls instead of the tables that the builder
keeps. -/
theorem exists_finish_ofCalls_iff {query : String} {mutation subscription : Option String}
    {calls : List BuilderCall} :
    (∃ schema, (ofCalls query mutation subscription calls).finish = .ok schema) ↔
      WellFormed calls (query :: mutation.toList ++ subscription.toList)
        (definitions (ofCalls query mutation subscription calls).types) := by
  rw [exists_finish_iff, duplicates_ofCalls_eq_nil_iff, roots_ofCalls]
  simp only [mem_targets_ofCalls, checkUses_eq_ok_iff, checkMembership_eq_ok_iff]
  constructor
  -- Each part of what is well-formed is one of the checks.
  · rintro ⟨honce, hroots, htargets, huses, hmemberships⟩
    exact {
      registeredOnce := honce
      roots := hroots
      targets := htargets
      outputs := fun definition hmem fields hfields field hfield =>
        ((huses definition hmem).1 fields hfields field hfield).1
      arguments := fun definition hmem fields hfields field hfield =>
        ((huses definition hmem).1 fields hfields field hfield).2
      inputFields := fun object hmem => (huses _ hmem).2 object rfl
      interfaces := fun object hmem => (hmemberships _ hmem).1 object rfl
      members := fun union hmem => (hmemberships _ hmem).2 union rfl }
  · intro h
    refine ⟨h.registeredOnce, h.roots, h.targets, fun definition hmem => ⟨?_, ?_⟩,
      fun definition hmem => ⟨?_, ?_⟩⟩
    · exact fun fields hfields field hfield =>
        ⟨h.outputs definition hmem fields hfields field hfield,
          h.arguments definition hmem fields hfields field hfield⟩
    · rintro object rfl
      exact h.inputFields object hmem
    · rintro object rfl
      exact h.interfaces object hmem
    · rintro union rfl
      exact h.members union hmem

end SchemaBuilder

end GraphQL
