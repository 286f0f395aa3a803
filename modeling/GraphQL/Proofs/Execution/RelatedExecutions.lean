import GraphQL.Proofs.Execution.RelatedCompletions
import GraphQL.Proofs.Execution.SameRequests
import GraphQL.Proofs.Resolver.RelatedCallbacks

/-!
# Executions whose callbacks differ in their errors

Two executions of the same request whose callbacks are related make the same visits. Wherever a callback
of the one returns an error a callback of the other returns a related one, and both errors are reported
for the same place. All other errors are the engine's own, and the same in both.

Everything that is not an error is equal on both sides, so the executions stay in lockstep: the same
fields are collected and the same resolvers called in the same visits. Errors are handed on,
absorbed and recorded, but no field is executed differently for what is in them, so a relation that
the callbacks keep is kept by the execution.

* `GraphQLError.Reported` — the errors of two such executions;
* `ExecutionContext.InvokesAlike` — resolvers that are called with related results;
* `ExecutionContext.SameRequest.executeOperation_related` — hence all fields are executed alike;
* `ExecutionContext.Related`, `ExecutionContext.build_related` — related callbacks in a context;
* `ExecutionContext.Related.executeOperation` — operations with related callbacks.
-/

namespace GraphQL

/-- Two errors are the same, or report related errors of callbacks for the same place. -/
inductive GraphQLError.Reported (C : ResolverError → ResolverError → Prop) :
    GraphQLError → GraphQLError → Prop
  | same (error : GraphQLError) : Reported C error error
  | callback {error error' : ResolverError} (h : C error error') (locations : List Location)
      (path : ErrorPath) :
      Reported C ((error.toGraphQLError.withLocations locations).withPath path)
        ((error'.toGraphQLError.withLocations locations).withPath path)

namespace ExecutionContext

variable {C : ResolverError → ResolverError → Prop} {ctx ctx' : ExecutionContext}

/-- The resolvers of all fields, behind their interceptors, take the same visits and have related
results wherever they are called. -/
def InvokesAlike (C : ResolverError → ResolverError → Prop) (ctx ctx' : ExecutionContext) : Prop :=
  ∀ typeName fieldName atRoot resolverContext,
    Coroutine.Lockstep (Event.Related (GraphQLError.Reported C)) (ResolverResult.Related C)
      (ctx.invoke (ctx.middleware.wrap typeName fieldName (ctx.baseResolver typeName fieldName atRoot))
        resolverContext)
      (ctx'.invoke (ctx'.middleware.wrap typeName fieldName (ctx'.baseResolver typeName fieldName atRoot))
        resolverContext)

namespace SameRequest

variable (h : ctx.SameRequest ctx')
include h

/-- A field is described by both contexts in the same way. -/
theorem fieldsRelated {E : GraphQLError → GraphQLError → Prop} (hrefl : ∀ error, E error error)
    {select select' : Select} (hselect : ∀ object selectionSets value path,
      RunsRelated E (select object selectionSets value path) (select' object selectionSets value path))
    (info : ResolveInfo) : FieldsRelated E ctx ctx' select select' info info where
  label := rfl
  returnType := rfl
  path := rfl
  located _ _ _ := hrefl _
  types := h.types
  resolvesTypes value typeName := by rw [h.resolveType, h.typeResolver]
  selects object value path := hselect object _ value path

section Fields

variable (hinvoke : ctx.InvokesAlike C ctx') {select select' : Select}
  (hselect : ∀ object selectionSets value path,
    RunsRelated (GraphQLError.Reported C) (select object selectionSets value path)
      (select' object selectionSets value path))
include hinvoke hselect

theorem executeDefined_related (object : ObjectType) (parent : FieldValue) (atRoot : Bool)
    (definition : FieldDefinition) (node : Field) (info : ResolveInfo) :
    RunsRelated (GraphQLError.Reported C)
      (ctx.executeDefined select object parent atRoot definition node info)
      (ctx'.executeDefined select' object parent atRoot definition node info) := by
  rw [executeDefined, executeDefined, ← h.types, ← h.vars, ← h.context]
  cases Coercion.coerceArguments ctx.schema.types definition node ctx.vars with
  | error failure =>
    cases failure with
    | endless => exact .abort .nil .endless
    | invalid error => exact Completed.absorb_bind_related _ (Completed.fail_related (.same _))
  | ok arguments =>
    have hcalled := hinvoke object.name node.name atRoot ⟨parent, arguments, info, ctx.context⟩
    refine Coroutine.Lockstep.bind hcalled fun result result' hresult => ?_
    -- An error is located at the field, and a value is completed.
    refine Completed.absorb_bind_related _ ?_
    cases hresult with
    | error herror => exact Completed.fail_related (.callback herror _ _)
    | @ok value _ hvalue =>
      obtain rfl := hvalue
      exact Completion.completeValue_related (h.fieldsRelated .same hselect info) value

/-- The selections under one response key. -/
theorem executeField_related (object : ObjectType) (parent : FieldValue) (path : QueryPath) (key : String)
    (nodes : List Field) :
    RunsRelated (GraphQLError.Reported C) (ctx.executeField select object parent path key nodes)
      (ctx'.executeField select' object parent path key nodes) := by
  cases nodes with
  | nil => exact .abort .nil _
  | cons node others =>
    rw [executeField, executeField]
    split
    -- The name of the type is the same on both sides.
    · exact .ok _
    · cases object.field? node.name with
      | none => exact Completed.absorb_bind_related _ (Completed.fail_related (.same _))
      | some definition =>
        simp only [h.resolveInfo_eq]
        exact h.executeDefined_related hinvoke hselect object parent _ definition node _

/-- The fields of an object. -/
theorem executeGroups_related (serial : Bool) (object : ObjectType) (parent : FieldValue)
    (path : QueryPath) (groups : FieldGroups) :
    RunsRelated (GraphQLError.Reported C) (ctx.executeGroups select serial object parent path groups)
      (ctx'.executeGroups select' serial object parent path groups) := by
  have hfields : GroupsRelated (GraphQLError.Reported C) (ctx.executeField select object parent path)
      (ctx'.executeField select' object parent path) groups groups :=
    List.forall₂_same.mpr fun group _ =>
      ⟨rfl, h.executeField_related hinvoke hselect object parent path group.1 group.2⟩
  rw [executeGroups, executeGroups]
  refine RunsRelated.map Value.object ?_
  split
  · exact executeInTurn_related hfields
  · exact executeTogether_related hfields

end Fields

variable (hinvoke : ctx.InvokesAlike C ctx')
include hinvoke

/-- Selections that nest to some depth. The induction is on the depth. -/
theorem selectWithin_related (depth : Nat) (object : ObjectType) (selectionSets : List (List Selection))
    (value : FieldValue) (path : QueryPath) :
    RunsRelated (GraphQLError.Reported C) (ctx.selectWithin depth object selectionSets value path)
      (ctx'.selectWithin depth object selectionSets value path) := by
  induction depth generalizing object selectionSets value path with
  | zero => exact .abort .nil .endless
  | succ depth ih =>
    rw [selectWithin, selectWithin]
    simp only [h.collectFields_eq]
    exact h.executeGroups_related hinvoke ih false object value path _

/-- **Operations are executed alike**, up to the errors of their resolvers. -/
theorem executeOperation_related :
    Coroutine.Lockstep (Event.Related (GraphQLError.Reported C)) Eq ctx.executeOperation
      ctx'.executeOperation := by
  refine ExecutionContext.executeOperation_related h.rootType?_eq fun root _ => ?_
  rw [h.collectFields_eq, h.operation, h.rootValue, h.isSerial_eq, h.depthLimit_eq]
  exact h.executeGroups_related hinvoke (h.selectWithin_related hinvoke _) _ root _ .empty _

end SameRequest

/-! ### Related callbacks -/

/-- Two contexts for the same request whose callbacks are related. -/
structure Related (C : ResolverError → ResolverError → Prop) (ctx ctx' : ExecutionContext) : Prop
    extends ctx.SameRequest ctx' where
  schema : ctx.schema.Related C ctx'.schema
  fieldResolver : Resolver.Related C ctx.fieldResolver ctx'.fieldResolver
  middleware : Middleware.Related C ctx.middleware ctx'.middleware

namespace Related

variable (h : ctx.Related C ctx')
include h

/-- Events are executed in related contexts. -/
theorem forEvent (payload : FieldValue) : (ctx.forEvent payload).Related C (ctx'.forEvent payload) :=
  { h with
    rootValue := rfl
    isEvent := rfl }

/-- A resolver is called and waited for. Where its panic counts as a failure it is the same failure in
both executions. -/
theorem invokesAlike (hpanic : C .panicked .panicked) : ctx.InvokesAlike C ctx' := by
  intro typeName fieldName atRoot resolverContext
  have hbase := h.toSameRequest.baseResolver_related typeName fieldName atRoot
    (h.schema.resolver typeName fieldName) Resolver.payload_related h.fieldResolver
  have hcall := Middleware.wrap_related h.middleware typeName fieldName hbase resolverContext
  have hcalled : Coroutine.Lockstep (Event.Related (GraphQLError.Reported C)) (Resolution.Related C) _ _ :=
    hcall.toCoroutine .said fun text => .same (.said text)
  -- The resolution is waited for, and the texts that are logged meanwhile are the same.
  have hresolved := hcalled.bind fun resolution resolution' hresolution =>
    hresolution.toCoroutine.mapLog fun text text' htext =>
      (htext ▸ .same (.said text) : Event.Related (GraphQLError.Reported C) (.said text) (.said text'))
  rw [invoke, invoke, ← h.config]
  refine Coroutine.Lockstep.prepend (.cons (.same _) .nil) ?_
  refine Coroutine.Lockstep.bind (R := ResolverResult.Related C) ?_ fun _ _ hresult =>
    .finish (.cons (.same _) .nil) hresult
  split
  · exact hresolved.catchPanic (.error hpanic)
  · exact hresolved

/-- **Operations with related callbacks** are executed alike. -/
theorem executeOperation (hpanic : C .panicked .panicked) :
    Coroutine.Lockstep (Event.Related (GraphQLError.Reported C)) Eq ctx.executeOperation
      ctx'.executeOperation :=
  h.toSameRequest.executeOperation_related (h.invokesAlike hpanic)

end Related

/-- Requests that differ in related callbacks break down alike, are refused with the same errors, or are
executed in related contexts. -/
theorem build_related {schema schema' : Schema} {params params' : ExecutionParams}
    (hschema : schema.Related C schema') (hparams : params.Related C params') (document : Document) :
    (∃ why, build schema document params = .error why ∧ build schema' document params' = .error why) ∨
    (∃ errors, build schema document params = .ok (.error errors) ∧
      build schema' document params' = .ok (.error errors)) ∨
    ∃ ctx ctx', build schema document params = .ok (.ok ctx) ∧
      build schema' document params' = .ok (.ok ctx') ∧ ctx.schema = schema ∧ ctx.Related C ctx' := by
  -- Apart from their callbacks the requests are the same.
  have hsame : SameButCallbacks schema schema' params params' := {
    types := hschema.types
    config := hschema.config
    resolveType := hschema.resolveType
    rootValue := hparams.rootValue
    context := hparams.context
    vars := hparams.vars
    operationName := hparams.operationName
    typeResolver := hparams.typeResolver }
  obtain hwhy | herrors | ⟨operation, vars, hbuild, hbuild'⟩ := hsame.build_cases document
  · exact .inl hwhy
  · exact .inr (.inl herrors)
  · refine .inr (.inr ⟨_, _, hbuild, hbuild', rfl, ?_⟩)
    exact {
      hsame.sameRequest document operation vars with
      schema := hschema
      fieldResolver := hparams.fieldResolver
      middleware := hparams.middleware }

end ExecutionContext

end GraphQL
