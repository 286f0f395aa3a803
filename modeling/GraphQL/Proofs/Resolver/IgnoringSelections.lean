import GraphQL.Execution.Context
import GraphQL.Proofs.Entries
import GraphQL.Proofs.Middleware.Nesting

/-!
# Callbacks that do not look at selections

A callback is told which nodes of the document it is called for, the fragments of the document and
the operation. One that makes nothing of the selections in there does the same in any document in
which it is called at the same places with the same values.

* `ResolveInfo.Alike` — agreement on all that such a callback looks at;
* `Resolver.IgnoresSelections`, `TypeResolver.IgnoresSelections`, `Middleware.IgnoresSelections` —
  the property of resolvers, of type resolvers and of the interceptors around resolvers;
* `Schema.IgnoresSelections`, `ExecutionParams.IgnoresSelections` — all callbacks that a schema and
  a request bring along;
* `Middleware.wrap_ignoresSelections` — resolvers behind interceptors.
-/

namespace GraphQL

/-- The operation without what it selects. -/
def OperationDefinition.withoutSelections (operation : OperationDefinition) : OperationDefinition :=
  { operation with selections := [] }

/-- Two fields are told the same about themselves, apart from the selections of the document. -/
structure ResolveInfo.Alike (info info' : ResolveInfo) : Prop where
  fieldName : info.fieldName = info'.fieldName
  returnType : info.returnType = info'.returnType
  parentType : info.parentType = info'.parentType
  path : info.path = info'.path
  types : info.types = info'.types
  rootValue : info.rootValue = info'.rootValue
  operation : info.operation.withoutSelections = info'.operation.withoutSelections
  vars : info.vars = info'.vars

/-- A resolver that makes nothing of the selections in the document. -/
def Resolver.IgnoresSelections (resolver : Resolver) : Prop :=
  ∀ (parent : FieldValue) (arguments : Arguments) (info info' : ResolveInfo)
    (context : Option Value), info.Alike info' →
    resolver ⟨parent, arguments, info, context⟩ = resolver ⟨parent, arguments, info', context⟩

/-- A type resolver that makes nothing of the selections in the document. -/
def TypeResolver.IgnoresSelections (resolver : TypeResolver) : Prop :=
  ∀ (value : FieldValue) (info info' : ResolveInfo) (typeName : String), info.Alike info' →
    resolver value info typeName = resolver value info' typeName

/-- Interceptors around which a resolver still makes nothing of selections, if it does not on its
own. -/
def Middleware.IgnoresSelections (middleware : Middleware) : Prop :=
  ∀ typeName fieldName, ∀ interceptor ∈ middleware.chainFor typeName fieldName,
    ∀ resolver : Resolver, resolver.IgnoresSelections →
      Resolver.IgnoresSelections (interceptor resolver)

/-- The callbacks of a schema make nothing of selections. -/
structure Schema.IgnoresSelections (schema : Schema) : Prop where
  resolver : ∀ typeName fieldName, ∀ resolver ∈ (schema.fieldHooks typeName fieldName).resolver,
    resolver.IgnoresSelections
  resolveType : ∀ typeName, ∀ resolver ∈ (schema.typeHooks typeName).resolveType,
    resolver.IgnoresSelections

/-- A schema without resolvers and type resolvers of its own. -/
theorem Schema.ignoresSelections_of_none {schema : Schema}
    (h : ∀ entry ∈ schema.hooks, entry.2 = .none) : schema.IgnoresSelections := by
  have hnone : ∀ typeName, schema.typeHooks typeName = .none := by
    intro typeName
    rw [Schema.typeHooks]
    cases hget : Entries.get? schema.hooks typeName with
    | none => rfl
    | some hooks => exact h _ (Entries.get?_mem hget)
  constructor
  · intro typeName fieldName resolver hresolver
    rw [Schema.fieldHooks, hnone] at hresolver
    cases hresolver
  · intro typeName resolver hresolver
    rw [hnone] at hresolver
    cases hresolver

/-- The callbacks of a request make nothing of selections. -/
structure ExecutionParams.IgnoresSelections (params : ExecutionParams) : Prop where
  fieldResolver : params.fieldResolver.IgnoresSelections
  typeResolver : params.typeResolver.IgnoresSelections
  middleware : params.middleware.IgnoresSelections

/-! ### What is there without any callbacks -/

theorem Resolver.standard_ignoresSelections : Resolver.standard.IgnoresSelections := by
  intro parent arguments info info' context hinfo
  rw [Resolver.standard, Resolver.standard, hinfo.fieldName]

theorem Resolver.payload_ignoresSelections : Resolver.payload.IgnoresSelections :=
  fun _ _ _ _ _ _ => rfl

theorem TypeResolver.standard_ignoresSelections : TypeResolver.standard.IgnoresSelections := by
  intro value info info' typeName hinfo
  rw [TypeResolver.standard, TypeResolver.standard, hinfo.types]

/-- Without interceptors there is nothing that could look at selections. -/
theorem Middleware.empty_ignoresSelections : Middleware.empty.IgnoresSelections :=
  fun _ _ _ hmem => absurd hmem List.not_mem_nil

/-- The resolver of a field is called behind all interceptors. -/
theorem Middleware.wrap_ignoresSelections {middleware : Middleware}
    (hmiddleware : middleware.IgnoresSelections) (typeName fieldName : String) {resolver : Resolver}
    (h : resolver.IgnoresSelections) :
    (middleware.wrap typeName fieldName resolver).IgnoresSelections :=
  wrap_keeps (hmiddleware typeName fieldName) h

end GraphQL
