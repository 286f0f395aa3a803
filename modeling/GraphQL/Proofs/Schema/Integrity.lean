import GraphQL.Proofs.Coercion.InputFaults
import GraphQL.Proofs.Execution.FieldFailures
import GraphQL.Proofs.Execution.NullPropagation
import GraphQL.Proofs.Schema.PossibleTypes

/-!
# What accepted schemas can be relied on for

The engine has errors for schemas whose types do not fit together: a field whose type is none that
fields may have, and a value that is to be coerced to a type that is no input type. A builder only
makes well-formed schemas (`SchemaBuilder.WellFormed`), and with those neither of these errors
occurs, whatever is asked of the schema. Nor is a root type ever missing, or an object type where it
may stand for an interface or a union.

* `Schema.IsIntegral` — what can be relied on;
* `WellFormed.ne_outputTypeError` — no failure of an execution is that of a field without a usable type;
* `WellFormed.isIntegral` — a schema with a well-formed table of types can be relied on;
* `finish_iff_wellFormed` — a builder makes a schema exactly if its calls leave a well-formed one.
-/

namespace GraphQL

open SchemaBuilder

/-- The error of a field without a usable type is told from that of an undefined field by how its
message ends. -/
theorem ResolveInfo.outputTypeError_ne_undefinedField (info : ResolveInfo) (path path' : QueryPath)
    (object : ObjectType) (node : Field) (nodes : List Field) :
    ExecutionContext.undefinedField object node nodes path' ≠ info.outputTypeError path := by
  intro h
  have hmessage := congrArg (fun error => (GraphQLError.message error).toList.reverse.take 2) h
  simp only [ExecutionContext.undefinedField, ResolveInfo.outputTypeError, ResolveInfo.located,
    GraphQLError.withLocations, GraphQLError.withPath, GraphQLError.new, String.toList_append,
    List.reverse_append] at hmessage
  rw [List.take_append_of_le_length (by decide), List.take_append_of_le_length (by decide)] at hmessage
  exact absurd hmessage (by decide)

/-- What can be relied on of a schema. -/
structure Schema.IsIntegral (schema : Schema) : Prop where
  /-- An interface stands for the object types that declare it, in the order of the table. -/
  implementors : ∀ name interface, schema.types.type? name = some (.interface interface) →
    schema.types.possibleTypes name =
      (Entries.values schema.types.types).filterMap (TypeDefinition.implementor? name)
  /-- A union stands for its members, in the order in which it lists them. -/
  members : ∀ name union, schema.types.type? name = some (.union union) →
    (schema.types.possibleTypes name).map ObjectType.name = union.members.eraseDups
  nodup : ∀ name, ((schema.types.possibleTypes name).map ObjectType.name).Nodup
  query : schema.types.queryType?.isSome
  mutation : schema.types.mutationName.isSome → schema.types.mutationType?.isSome
  subscription : schema.types.subscriptionName.isSome → schema.types.subscriptionType?.isSome
  /-- Every execution has the root type of its kind of operation. -/
  root : ∀ document params ctx, ExecutionContext.build schema document params = .ok (.ok ctx) →
    ctx.ownRootType?.isSome ∧ ctx.rootType? = ctx.ownRootType?
  /-- No execution meets a field whose type is none that fields may have. -/
  outputs : ∀ ctx : ExecutionContext, ctx.schema = schema →
    ∀ failure ∈ Event.failures ctx.respond.log, ∀ (info : ResolveInfo) (path : QueryPath),
      failure ≠ info.outputTypeError path
  /-- No coercion to an input type meets a type that is none. -/
  constants : ∀ value, (Coercion.coerceConstant schema.types value).IsTyped schema.types
  literals : ∀ vars lenient literal,
    DeferredLiteral.IsTyped schema.types (Coercion.coerceLiteral schema.types vars lenient literal)
  /-- And no others are asked for, for the arguments of fields and for variables. -/
  argumentFailures : ∀ object name definition, schema.types.Holds object →
    object.field? name = some definition → ∀ node vars error,
      Coercion.coerceArguments schema.types definition node vars = .error (.invalid error) →
        Coercion.ArgumentFailure definition error
  variableFailures : ∀ definition given error,
    Coercion.coerceDeclaredVariable schema.types definition given = .ok (.failed error) →
      Coercion.VariableFailure definition error

namespace SchemaBuilder

variable {system : TypeSystem} {calls : List BuilderCall} {roots : List String}

theorem namedTypeIs_of_namesOutput {ty : TypeRef} (h : NamesOutput system.types ty) :
    system.namedTypeIs TypeDefinition.isOutput ty = true := TypeSystem.namedTypeIs_iff.mpr h

theorem namedTypeIs_of_namesInput {ty : TypeRef} (h : NamesInput system.types ty) :
    system.namedTypeIs TypeDefinition.isInput ty = true := TypeSystem.namedTypeIs_iff.mpr h

namespace WellFormed

variable (h : WellFormed calls roots system.types)
include h

theorem inputsClosed : system.InputsClosed := by
  intro name object hobject field hfield
  have hmem : TypeDefinition.inputObject object ∈ Entries.values system.types :=
    Entries.mem_values_of_get? hobject
  exact namedTypeIs_of_namesInput (h.inputFields object hmem field hfield)

/-- The fields of the object types of a well-formed table. -/
theorem field_of_holds {object : ObjectType} {name : String} {definition : FieldDefinition}
    (hobject : system.Holds object) (hdefinition : object.field? name = some definition) :
    system.namedTypeIs TypeDefinition.isOutput definition.type = true ∧
      ∀ argument ∈ Entries.values definition.arguments.entries,
        system.namedTypeIs TypeDefinition.isInput argument.type = true := by
  obtain ⟨typeName, hfound⟩ := hobject
  have hmem : TypeDefinition.object object ∈ Entries.values system.types :=
    Entries.mem_values_of_get? (TypeSystem.object?_eq_some_iff.mp hfound)
  have hfield : definition ∈ Entries.values object.fields.entries :=
    Entries.mem_values_of_get? hdefinition
  refine ⟨namedTypeIs_of_namesOutput (h.outputs _ hmem object.fields.entries rfl definition hfield), ?_⟩
  intro argument hargument
  exact namedTypeIs_of_namesInput
    (h.arguments _ hmem object.fields.entries rfl definition hfield argument hargument)

end WellFormed

/-- No execution with a well-formed table meets a field whose type is none that fields may have. -/
theorem WellFormed.ne_outputTypeError {ctx : ExecutionContext}
    (h : WellFormed calls roots ctx.schema.types.types) {failure : GraphQLError}
    (hmem : failure ∈ Event.failures ctx.respond.log) (info : ResolveInfo) (path : QueryPath) :
    failure ≠ info.outputTypeError path := by
  cases ctx.fieldFailure_of_mem hmem with
  | undefined object node nodes path' =>
    exact info.outputTypeError_ne_undefinedField path path' object node nodes
  | argument path' hobject hdefinition harguments =>
    intro heq
    have hcode := Coercion.code_of_coerceArguments harguments
    have hother := congrArg GraphQLError.code heq
    exact absurd (hcode.symm.trans hother) nofun
  | resolver info' error => exact fun heq => nomatch congrArg GraphQLError.code heq
  | completion info' path' message code hcode =>
    intro heq
    obtain rfl : code = .internalServerError := congrArg GraphQLError.code heq
    exact hcode.elim nofun nofun
  | outputType path' hdeclared hnone =>
    -- The field is one of an object type of the table, so its type has been checked.
    obtain ⟨object, name, definition, hobject, hdefinition, htype⟩ := hdeclared
    rw [htype, (h.field_of_holds hobject hdefinition).1] at hnone
    exact nomatch hnone

theorem Accepted.possible_eq {builder : SchemaBuilder} {schema : Schema}
    (h : builder.Accepted schema) :
    schema.types.possible = SchemaBuilder.possibleTypes schema.types.types := by
  rw [h.types]

/-- **A schema with a well-formed table can be relied on**, if it is one that a builder has made.
Every promise about possible types and root types is one of the checks that the table has passed,
read through the lookups that executions make. -/
theorem WellFormed.isIntegral {builder : SchemaBuilder} {schema : Schema}
    (h : WellFormed calls builder.roots schema.types.types)
    (hnamed : WellNamed schema.types.types) (hfinish : builder.finish = .ok schema) :
    schema.IsIntegral where
  implementors name interface hinterface :=
    schema.types.possibleTypes_interface hnamed (accepted_of_finish hfinish).possible_eq hinterface
  members name union hunion := by
    have hmem : TypeDefinition.union union ∈ Entries.values schema.types.types :=
      Entries.mem_values_of_get? hunion
    exact schema.types.map_name_possibleTypes_union hnamed (accepted_of_finish hfinish).possible_eq
      hunion (h.members union hmem)
  nodup := schema.types.nodup_possibleTypes hnamed (accepted_of_finish hfinish).possible_eq
  query := queryType?_isSome_of_finish hfinish
  -- The name of a root type is that of the builder, which has been checked.
  mutation hsome := by
    have haccepted := accepted_of_finish hfinish
    obtain ⟨name, hname⟩ := Option.isSome_iff_exists.mp hsome
    rw [TypeSystem.mutationType?, hname]
    have hbuilder : builder.mutationName = some name := by rw [← hname, haccepted.types]
    exact haccepted.object?_isSome (by simp [SchemaBuilder.roots, hbuilder])
  subscription hsome := by
    have haccepted := accepted_of_finish hfinish
    obtain ⟨name, hname⟩ := Option.isSome_iff_exists.mp hsome
    rw [TypeSystem.subscriptionType?, hname]
    have hbuilder : builder.subscriptionName = some name := by rw [← hname, haccepted.types]
    exact haccepted.object?_isSome (by simp [SchemaBuilder.roots, hbuilder])
  root document params ctx hbuild :=
    have hown := ExecutionContext.ownRootType?_isSome_of_build hfinish hbuild
    ⟨hown, ExecutionContext.rootType?_eq_ownRootType? hown⟩
  outputs ctx hctx failure hmem info path := by
    subst hctx
    exact h.ne_outputTypeError hmem info path
  constants := Coercion.coerceConstant_isTyped h.inputsClosed
  literals := fun vars lenient literal =>
    Coercion.coerceLiteral_isTyped h.inputsClosed vars literal lenient
  argumentFailures object name definition hobject hdefinition node vars error hfails :=
    Coercion.argumentFailure_of_coerceArguments h.inputsClosed
      (h.field_of_holds hobject hdefinition).2 hfails
  variableFailures definition given error hfails :=
    Coercion.variableFailure_of_coerceDeclaredVariable h.inputsClosed hfails

end SchemaBuilder

/-- **A builder makes a schema exactly if its calls leave a well-formed one**, and what it makes can be
relied on. -/
theorem finish_iff_wellFormed (query : String) (mutation subscription : Option String)
    (calls : List BuilderCall) :
    let builder := SchemaBuilder.ofCalls query mutation subscription calls
    ((∃ schema, builder.finish = .ok schema) ↔
      WellFormed calls (query :: mutation.toList ++ subscription.toList)
        (definitions builder.types)) ∧
    ∀ schema, builder.finish = .ok schema →
      schema.types.types = definitions builder.types ∧ schema.types.queryName = query ∧
        schema.types.mutationName = mutation ∧ schema.types.subscriptionName = subscription ∧
        schema.IsIntegral := by
  intro builder
  -- The builder has accepted the calls, and the table of the schema is the one that it has checked.
  refine ⟨exists_finish_ofCalls_iff, fun schema hfinish => ?_⟩
  have haccepted := accepted_of_finish hfinish
  have hnames : builder.queryName = query ∧ builder.mutationName = mutation ∧
      builder.subscriptionName = subscription := rootNames_ofCalls calls
  have htypes : schema.types.types = definitions builder.types := by rw [haccepted.types]
  have hwellNamed : WellNamed schema.types.types := htypes ▸ definitions_ofCalls_wellNamed
  have hwellFormed : WellFormed calls builder.roots schema.types.types := by
    rw [htypes, roots_ofCalls]
    -- The three names are passed on as they were given.
    exact exists_finish_ofCalls_iff.mp ⟨schema, hfinish⟩
  refine ⟨htypes, ?_, ?_, ?_, hwellFormed.isIntegral hwellNamed hfinish⟩
  · rw [haccepted.types, hnames.1]
  · rw [haccepted.types, hnames.2.1]
  · rw [haccepted.types, hnames.2.2]

namespace Sample

/-- What has a name. -/
def named : InterfaceType where
  name := "Named"
  description := none
  fields := .ofList [field "name" (.namedNonNull "String")]

/-- A union that lists its only member twice. -/
def anyone : UnionType where
  name := "Anyone"
  description := none
  members := ["User", "User"]

/-- Calls for a schema in which the user has a name, and a field a resolver of its own. -/
def calls : List BuilderCall :=
  [.register ⟨.object query, .none⟩,
    .register ⟨.object { user with interfaces := ["Named"] }, .none⟩,
    .register ⟨.interface named, .none⟩, .register ⟨.union anyone, .none⟩,
    .resolver "Query" "user" .standard]

end Sample

/-- They make a schema that can be relied on; with a type registered once more they make none. -/
theorem finish_iff_wellFormed_sample :
    (∃ schema, (ofCalls "Query" none none Sample.calls).finish = .ok schema ∧ schema.IsIntegral ∧
      (schema.types.possibleTypes "Named").map ObjectType.name = ["User"] ∧
      (schema.types.possibleTypes "Anyone").map ObjectType.name = ["User"]) ∧
    ¬ ∃ schema, (ofCalls "Query" none none
      -- The calls are accepted, which is a matter of computation; what the interface and the union
      -- stand for follows from the theorem.
      (.register ⟨.object Sample.user, .none⟩ :: Sample.calls)).finish = .ok schema := by
  constructor
  · obtain ⟨schema, hfinish⟩ :
        ∃ schema, (ofCalls "Query" none none Sample.calls).finish = .ok schema := ⟨_, rfl⟩
    obtain ⟨-, hmade⟩ := finish_iff_wellFormed "Query" none none Sample.calls
    obtain ⟨htypes, -, -, -, hintegral⟩ := hmade schema hfinish
    have hnamed : schema.types.type? "Named" = some (.interface Sample.named) := by
      rw [TypeSystem.type?, htypes]
      rfl
    have hanyone : schema.types.type? "Anyone" = some (.union Sample.anyone) := by
      rw [TypeSystem.type?, htypes]
      rfl
    refine ⟨schema, hfinish, hintegral, ?_, hintegral.members "Anyone" Sample.anyone hanyone⟩
    -- The type would be registered twice, which no well-formed table allows.
    rw [hintegral.implementors "Named" Sample.named hnamed, htypes]
    rfl
  · rw [(finish_iff_wellFormed "Query" none none _).1]
    intro hwellFormed
    exact absurd hwellFormed.registeredOnce (by decide)

end GraphQL
