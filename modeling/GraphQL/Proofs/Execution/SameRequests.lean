import GraphQL.Proofs.Coroutine.Lockstep
import GraphQL.Proofs.Execution.Scheduling

/-!
# Requests that differ in their callbacks

What becomes of a request before anything is executed does not depend on resolvers, interceptors and
subscribers: two requests that have all else in common break down alike, are refused with the same
errors, or select the same operation with the same variables.

* `SameButCallbacks` — requests that have all else in common;
* `SameButCallbacks.build_cases`, `SameButCallbacks.build_related` — what becomes of both of them;
* `SameButCallbacks.execute_eq` — hence requests whose operations are executed alike.
-/

namespace GraphQL

open ExecutionContext

/-- Two requests that have everything in common but resolvers, interceptors and subscribers. -/
structure SameButCallbacks (schema schema' : Schema) (params params' : ExecutionParams) : Prop where
  types : schema.types = schema'.types
  config : schema.config = schema'.config
  resolveType : ∀ typeName,
    (schema.typeHooks typeName).resolveType = (schema'.typeHooks typeName).resolveType
  rootValue : params.rootValue = params'.rootValue
  context : params.context = params'.context
  vars : params.vars = params'.vars
  operationName : params.operationName = params'.operationName
  typeResolver : params.typeResolver = params'.typeResolver

/-- The context in which an operation of a request is executed. -/
def ExecutionContext.ofRequest (schema : Schema) (document : Document) (params : ExecutionParams)
    (operation : OperationDefinition) (vars : Variables) : ExecutionContext where
  schema := schema
  fragments := document.fragments
  operation := operation
  rootValue := params.rootValue
  context := params.context
  vars := vars
  fieldResolver := params.fieldResolver
  typeResolver := params.typeResolver
  middleware := params.middleware
  isEvent := false

namespace SameButCallbacks

variable {schema schema' : Schema} {params params' : ExecutionParams}
  (h : SameButCallbacks schema schema' params params') (document : Document)
include h

theorem sameRequest (operation : OperationDefinition) (vars : Variables) :
    (ofRequest schema document params operation vars).SameRequest
      (ofRequest schema' document params' operation vars) where
  types := h.types
  config := h.config
  resolveType := h.resolveType
  fragments := rfl
  operation := rfl
  rootValue := h.rootValue
  context := h.context
  vars := rfl
  typeResolver := h.typeResolver
  isEvent := rfl

/-- **Both requests** break down alike, are refused with the same errors, or select the same operation with
the same variables. -/
theorem build_cases :
    (∃ why, build schema document params = .error why ∧ build schema' document params' = .error why) ∨
    (∃ errors, build schema document params = .ok (.error errors) ∧
      build schema' document params' = .ok (.error errors)) ∨
    ∃ operation vars, build schema document params =
        .ok (.ok (ofRequest schema document params operation vars)) ∧
      build schema' document params' =
        .ok (.ok (ofRequest schema' document params' operation vars)) := by
  -- The name of the operation and the types are the same, so that both select the same or fail
  -- alike.
  have hselect : select schema' document params'.operationName =
      select schema document params.operationName := by
    rw [select, select, h.types, h.operationName]
  rw [build, build, hselect, ← h.types, ← h.config, ← h.vars]
  cases select schema document params.operationName with
  | error error => exact .inr (.inl ⟨_, rfl, rfl⟩)
  | ok operation =>
    simp only [bind, Except.bind, pure, Except.pure]
    cases Coercion.coerceVariables schema.types schema.config.maxVariableErrors
        operation.variableDefinitions params.vars with
    | error why => exact .inl ⟨why, rfl, rfl⟩
    | ok coerced =>
      cases coerced with
      | error errors => exact .inr (.inl ⟨errors, rfl, rfl⟩)
      | ok vars => exact .inr (.inr ⟨operation, vars, rfl, rfl⟩)

/-- The contexts of both requests are related if those of any operation that is selected are. -/
theorem build_related {R : ExecutionContext → ExecutionContext → Prop}
    (hcontext : ∀ operation vars, build schema document params =
        .ok (.ok (ofRequest schema document params operation vars)) →
      R (ofRequest schema document params operation vars)
        (ofRequest schema' document params' operation vars)) :
    ExceptRel Eq (ExceptRel Eq R) (build schema document params) (build schema' document params') := by
  obtain ⟨why, hbuild, hbuild'⟩ | ⟨errors, hbuild, hbuild'⟩ | ⟨operation, vars, hbuild, hbuild'⟩ :=
    h.build_cases document
  · rw [hbuild, hbuild']
    exact .error rfl
  · rw [hbuild, hbuild']
    exact .ok (.error rfl)
  · have hrelated := hcontext operation vars hbuild
    rw [hbuild, hbuild']
    exact .ok (.ok hrelated)

/-- Both requests are executed alike if the operations are. -/
theorem execute_eq (hrespond : ∀ operation vars, (ofRequest schema document params operation vars).respond =
      (ofRequest schema' document params' operation vars).respond) :
    execute schema document params = execute schema' document params' := by
  rw [execute, execute]
  obtain ⟨why, hbuild, hbuild'⟩ | ⟨errors, hbuild, hbuild'⟩ | ⟨operation, vars, hbuild, hbuild'⟩ :=
    h.build_cases document
  · rw [hbuild, hbuild']
  · rw [hbuild, hbuild']
  · rw [hbuild, hbuild']
    exact hrespond operation vars

end SameButCallbacks

end GraphQL
