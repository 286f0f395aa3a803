import GraphQL.Proofs.Execution.Answer
import GraphQL.Proofs.Execution.Collection
import GraphQL.Proofs.Resolver.Agreement

/-!
# Scheduling does not change the result

Two schemas and two requests may differ in their resolvers and interceptors, as long as these agree
on what they end with. How many visits the resolutions take, which of them are there at once, and in
which order they settle then makes no difference to the data, to the errors and to the calls.

* `Schema.Agrees`, `ExecutionParams.Agrees`, `ExecutionContext.Agrees` — agreement of everything
  that an execution works with;
* `ExecutionContext.SameRequest` — what they have in common whatever their resolvers do;
* `ExecutionContext.Agrees.resolved_eq` — agreeing contexts resolve fields alike;
* `ExecutionContext.Agrees.tree_eq` — hence their operations have the same tree;
* `execute_agrees` — and their responses are equal up to the order of the errors.
-/

open scoped List

namespace GraphQL

/-- Two schemas of the same types and settings whose resolvers agree. -/
structure Schema.Agrees (schema other : Schema) : Prop where
  types : schema.types = other.types
  config : schema.config = other.config
  resolveType : ∀ typeName,
    (schema.typeHooks typeName).resolveType = (other.typeHooks typeName).resolveType
  resolver : ∀ typeName fieldName, Option.Rel Resolver.Agrees
    (schema.fieldHooks typeName fieldName).resolver (other.fieldHooks typeName fieldName).resolver

theorem Schema.Agrees.refl (schema : Schema) : schema.Agrees schema where
  types := rfl
  config := rfl
  resolveType _ := rfl
  resolver typeName fieldName := by
    cases (schema.fieldHooks typeName fieldName).resolver with
    | none => exact .none
    | some resolver => exact .some (.refl resolver)

/-- Two requests for the same whose resolvers and interceptors agree. -/
structure ExecutionParams.Agrees (params other : ExecutionParams) : Prop where
  rootValue : params.rootValue = other.rootValue
  context : params.context = other.context
  vars : params.vars = other.vars
  operationName : params.operationName = other.operationName
  fieldResolver : params.fieldResolver.Agrees other.fieldResolver
  typeResolver : params.typeResolver = other.typeResolver
  middleware : params.middleware.Agrees other.middleware

namespace ExecutionContext

/-- Two contexts that agree on what all fields of an execution share. -/
structure Agrees (ctx other : ExecutionContext) : Prop where
  schema : ctx.schema.Agrees other.schema
  fragments : ctx.fragments = other.fragments
  operation : ctx.operation = other.operation
  rootValue : ctx.rootValue = other.rootValue
  context : ctx.context = other.context
  vars : ctx.vars = other.vars
  fieldResolver : ctx.fieldResolver.Agrees other.fieldResolver
  typeResolver : ctx.typeResolver = other.typeResolver
  middleware : ctx.middleware.Agrees other.middleware
  isEvent : ctx.isEvent = other.isEvent

/-- What the call of a resolver ends with depends on the ending of the resolver alone. How long it
takes and what it logs is forgotten, and catching a panic is a function of the ending. -/
theorem outcome_invoke (ctx : ExecutionContext) (resolver : Resolver)
    (resolverContext : ResolverContext) :
    (ctx.invoke resolver resolverContext).outcome =
      if ctx.schema.config.catchResolverPanics then
        match resolver.ending resolverContext with
        | .error (.panicked _) => .ok (.error .panicked)
        | ending => ending
      else resolver.ending resolverContext := by
  let run : Run ResolverResult := ((resolver resolverContext).toCoroutine .said).bind
    fun resolution => resolution.toCoroutine.mapLog .said
  have hrun : run.outcome = resolver.ending resolverContext := by
    simp only [run, Resolver.ending]
    cases resolver resolverContext with
    | panicked log message => rfl
    | returned log resolution =>
      rw [Call.toCoroutine, Coroutine.bind, Coroutine.outcome_prepend, Coroutine.outcome_mapLog]
  -- That the call is settled is logged, and changes nothing else.
  have hsettled : ∀ c : Run ResolverResult,
      (c.bind fun result => .finish [.settled resolverContext.info.path] result).outcome =
        c.outcome := by
    intro c
    rw [Coroutine.outcome_bind]
    cases c.outcome <;> rfl
  rw [invoke, Coroutine.outcome_prepend, hsettled]
  split
  · -- The panic is caught after the resolver and its resolution have been put together.
    change (run.catchPanic (.error .panicked)).outcome = _
    rw [Coroutine.outcome_catchPanic, hrun]
    cases resolver.ending resolverContext with
    | ok result => rfl
    | error why => cases why <;> rfl
  · exact hrun

/-! ### What does not depend on resolvers -/

/-- Two contexts that have everything in common but resolvers and interceptors. -/
structure SameRequest (ctx other : ExecutionContext) : Prop where
  types : ctx.schema.types = other.schema.types
  config : ctx.schema.config = other.schema.config
  resolveType : ∀ typeName,
    (ctx.schema.typeHooks typeName).resolveType = (other.schema.typeHooks typeName).resolveType
  fragments : ctx.fragments = other.fragments
  operation : ctx.operation = other.operation
  rootValue : ctx.rootValue = other.rootValue
  context : ctx.context = other.context
  vars : ctx.vars = other.vars
  typeResolver : ctx.typeResolver = other.typeResolver
  isEvent : ctx.isEvent = other.isEvent

namespace SameRequest

variable {ctx other : ExecutionContext} (h : ctx.SameRequest other)
include h

/-- The same fields are collected. -/
theorem collectFields_eq (object : ObjectType) (selectionSets : List (List Selection)) :
    ctx.collectFields object selectionSets = other.collectFields object selectionSets :=
  collectFields_congr h.vars h.fragments h.types object selectionSets

/-- Fields are told the same about themselves. -/
theorem resolveInfo_eq (object : ObjectType) (definition : FieldDefinition) (name : String)
    (nodes : List Field) (path : QueryPath) :
    ctx.resolveInfo object definition name nodes path =
      other.resolveInfo object definition name nodes path := by
  rw [resolveInfo, resolveInfo, h.types, h.fragments, h.rootValue, h.operation, h.vars]

theorem rootType?_eq : ctx.rootType? = other.rootType? := by
  rw [rootType?, rootType?, ownRootType?, ownRootType?, h.operation, h.types]

theorem depthLimit_eq : ctx.depthLimit = other.depthLimit := by
  rw [depthLimit, depthLimit, h.operation, h.fragments]

theorem isSerial_eq : ctx.isSerial = other.isSerial := by
  rw [isSerial, isSerial, h.operation, h.config]

/-- Errors are shown alike. -/
theorem shownError_eq : ctx.shownError = other.shownError := by
  funext error
  rw [shownError, shownError, h.config]

/-- Related resolvers of fields, before any interceptor. -/
theorem baseResolver_related {R : Resolver → Resolver → Prop} (typeName fieldName : String)
    (atRoot : Bool) (hresolver : Option.Rel R (ctx.schema.fieldHooks typeName fieldName).resolver
      (other.schema.fieldHooks typeName fieldName).resolver)
    (hpayload : R .payload .payload) (hfield : R ctx.fieldResolver other.fieldResolver) :
    R (ctx.baseResolver typeName fieldName atRoot)
      (other.baseResolver typeName fieldName atRoot) := by
  unfold baseResolver
  rw [← h.isEvent]
  -- Either both schemas attach a resolver to the field or none does.
  revert hresolver
  generalize (ctx.schema.fieldHooks typeName fieldName).resolver = resolver
  generalize (other.schema.fieldHooks typeName fieldName).resolver = resolver'
  intro hresolver
  cases hresolver with
  | some hrelated => exact hrelated
  | none =>
    simp only
    split
    · exact hpayload
    · exact hfield

/-- A field is resolved alike where its resolvers end with the same. -/
theorem resolved_congr {object : ObjectType} {parent : FieldValue} {atRoot : Bool} {node : Field}
    {info : ResolveInfo} {arguments : Arguments}
    (hending : (ctx.middleware.wrap object.name node.name
        (ctx.baseResolver object.name node.name atRoot)).ending
          ⟨parent, arguments, info, ctx.context⟩ =
      (other.middleware.wrap object.name node.name
        (other.baseResolver object.name node.name atRoot)).ending
          ⟨parent, arguments, info, ctx.context⟩) :
    ctx.resolved object parent atRoot node info arguments =
      other.resolved object parent atRoot node info arguments := by
  rw [resolved, resolved, outcome_invoke, outcome_invoke, ← h.config, ← h.context, hending]

end SameRequest

namespace Agrees

variable {ctx other : ExecutionContext}

/-! ### Resolving -/

section Agreement

variable (h : ctx.Agrees other)
include h

theorem sameRequest : ctx.SameRequest other where
  types := h.schema.types
  config := h.schema.config
  resolveType := h.schema.resolveType
  fragments := h.fragments
  operation := h.operation
  rootValue := h.rootValue
  context := h.context
  vars := h.vars
  typeResolver := h.typeResolver
  isEvent := h.isEvent

/-- **Agreeing contexts resolve fields alike**, behind all interceptors. -/
theorem resolved_eq (object : ObjectType) (parent : FieldValue) (atRoot : Bool) (node : Field)
    (info : ResolveInfo) (arguments : Arguments) :
    ctx.resolved object parent atRoot node info arguments =
      other.resolved object parent atRoot node info arguments := by
  have hbase := h.sameRequest.baseResolver_related object.name node.name atRoot
    (h.schema.resolver object.name node.name) (.refl .payload) h.fieldResolver
  have hending := Middleware.wrap_agrees h.middleware object.name node.name hbase
    ⟨parent, arguments, info, ctx.context⟩
  exact h.sameRequest.resolved_congr hending

/-! ### Trees -/

theorem ofNamed_eq (grow : Grow) (typeName : String) (info : ResolveInfo) (path : QueryPath)
    (value : FieldValue) :
    CompletionTree.ofNamed ctx grow typeName info path value =
      CompletionTree.ofNamed other grow typeName info path value := by
  have habstract : CompletionTree.ofAbstract ctx grow typeName info path value =
      CompletionTree.ofAbstract other grow typeName info path value := by
    rw [CompletionTree.ofAbstract, CompletionTree.ofAbstract, h.schema.resolveType, h.typeResolver,
      h.schema.types]
  rw [CompletionTree.ofNamed, CompletionTree.ofNamed, habstract, h.schema.types]

/-- The tree of a raw value. The induction is on the list wrappers of its type. -/
theorem ofLayers_eq (grow : Grow) (typeName : String) (innerRequired : Bool) (info : ResolveInfo)
    (wrappers : List ListWrapping) (path : QueryPath) (value : FieldValue) :
    CompletionTree.ofLayers ctx grow typeName innerRequired info wrappers path value =
      CompletionTree.ofLayers other grow typeName innerRequired info wrappers path value := by
  induction wrappers generalizing path value with
  | nil =>
    rw [CompletionTree.ofLayers, CompletionTree.ofLayers, h.ofNamed_eq]
  | cons wrapper inner ih =>
    rw [CompletionTree.ofLayers, CompletionTree.ofLayers]
    simp only [ih]

/-- Fields have the same place. -/
theorem fieldPlace_eq (grow : Grow) (object : ObjectType) (parent : FieldValue) (path : QueryPath)
    (key : String) (nodes : List Field) :
    ctx.fieldPlace grow object parent path key nodes =
      other.fieldPlace grow object parent path key nodes := by
  -- What a resolver ends with is completed to the same tree.
  have hresolved : ∀ info, ctx.resolvedTree grow info = other.resolvedTree grow info := by
    intro info
    funext result
    cases result with
    | error why => rfl
    | ok result =>
      cases result with
      | error error => rfl
      | ok value => exact h.ofLayers_eq ..
  have hdefined : ∀ definition node info,
      ctx.definedPlace grow object parent path.isEmpty key definition node info =
        other.definedPlace grow object parent path.isEmpty key definition node info := by
    intro definition node info
    rw [definedPlace, definedPlace, h.schema.types, h.vars]
    -- The arguments are the same, and agreeing resolvers end with the same.
    simp only [h.resolved_eq, hresolved]
  cases nodes with
  | nil => rfl
  | cons node others => simp only [fieldPlace, h.sameRequest.resolveInfo_eq, hdefined]

/-- Selections have the same trees, at every depth. -/
theorem growWithin_eq (depth : Nat) : ctx.growWithin depth = other.growWithin depth := by
  induction depth with
  | zero => rfl
  | succ depth ih =>
    funext object selectionSets value path
    simp only [growWithin, ih, groupsTree, h.sameRequest.collectFields_eq, h.fieldPlace_eq]

/-- **Agreeing contexts have the same tree.** -/
theorem tree_eq : ctx.tree = other.tree := by
  rw [tree, tree, h.sameRequest.rootType?_eq, h.sameRequest.depthLimit_eq, h.growWithin_eq,
    h.rootValue, h.operation]
  simp only [groupsTree, h.sameRequest.collectFields_eq, h.fieldPlace_eq]

theorem reachedTree_eq : ctx.reachedTree = other.reachedTree := by
  rw [reachedTree, reachedTree, h.tree_eq, h.sameRequest.isSerial_eq]

/-! ### Responses -/

/-- **Agreeing contexts answer alike**: with equal data, with the same errors in some order, and
after the same calls in some order. -/
theorem respond_agrees {response : Response} (hresponse : ctx.respond.outcome = .ok response) :
    ∃ response', other.respond.outcome = .ok response' ∧ response.data = response'.data ∧
      response.errors.Perm response'.errors ∧
      (Event.calls ctx.respond.log).Perm (Event.calls other.respond.log) := by
  have hanswer := answer_of_outcome hresponse
  -- Whether there is a response depends on the reached tree alone, and the two contexts share it.
  obtain ⟨response', hresponse'⟩ := exists_response_iff.mpr (h.reachedTree_eq ▸ hanswer.sound)
  have hanswer' := answer_of_outcome hresponse'
  refine ⟨response', hresponse', ?_, ?_, ?_⟩
  · rw [hanswer.data, hanswer'.data, h.reachedTree_eq]
  · -- Both runs record the failures of one tree, each in an order of its own.
    have hrecorded : ctx.respond.log.filterMap Event.error? ~
        other.respond.log.filterMap Event.error? :=
      calc ctx.respond.log.filterMap Event.error?
          ~ ctx.reachedTree.failures := hanswer.recorded
        _ = other.reachedTree.failures := congrArg _ h.reachedTree_eq
        _ ~ other.respond.log.filterMap Event.error? := hanswer'.recorded.symm
    rw [hanswer.errors, hanswer'.errors, h.sameRequest.shownError_eq]
    exact hrecorded.map other.shownError
  -- Both runs make the calls of that tree.
  · calc Event.calls ctx.respond.log
        ~ ctx.reachedTree.calls := hanswer.called
      _ = other.reachedTree.calls := congrArg _ h.reachedTree_eq
      _ ~ Event.calls other.respond.log := hanswer'.called.symm

end Agreement

end Agrees

/-- Agreeing requests have the same outcome, or contexts that agree. Resolvers are not asked when a
request is prepared, so both select the same operation and coerce its variables to the same values.
-/
theorem build_agrees {schema schema' : Schema} (document : Document)
    {params params' : ExecutionParams} (hschema : schema.Agrees schema')
    (hparams : params.Agrees params') :
    build schema document params = build schema' document params' ∨
      ∃ ctx ctx', build schema document params = .ok (.ok ctx) ∧
        build schema' document params' = .ok (.ok ctx') ∧ ctx.Agrees ctx' := by
  -- Both requests select the same operation, or none.
  have hselect : select schema document params.operationName =
      select schema' document params'.operationName := by
    rw [select, select, hschema.types, hparams.operationName]
  unfold build
  rw [← hselect, ← hschema.types, ← hschema.config, ← hparams.vars]
  cases select schema document params.operationName with
  | error error => exact .inl rfl
  | ok operation =>
    simp only
    -- The variables are coerced to the same values, or both requests are refused.
    cases Coercion.coerceVariables schema.types schema.config.maxVariableErrors
        operation.variableDefinitions params.vars with
    | error why => exact .inl rfl
    | ok coerced =>
      cases coerced with
      | error errors => exact .inl rfl
      | ok vars =>
        refine .inr ⟨_, _, rfl, rfl, ?_⟩
        exact {
          schema := hschema
          fragments := rfl
          operation := rfl
          rootValue := hparams.rootValue
          context := hparams.context
          vars := rfl
          fieldResolver := hparams.fieldResolver
          typeResolver := hparams.typeResolver
          middleware := hparams.middleware
          isEvent := rfl }

end ExecutionContext

/-- **Scheduling does not change the result.** Where resolvers and interceptors agree on what they
end with, a response of one execution is a response of the other: the data are equal, the errors are
the same in some order, and so are the calls of resolvers. -/
theorem execute_agrees {schema schema' : Schema} {document : Document}
    {params params' : ExecutionParams} {response : Response} (hschema : schema.Agrees schema')
    (hparams : params.Agrees params')
    (hresponse : (execute schema document params).outcome = .ok response) :
    ∃ response', (execute schema' document params').outcome = .ok response' ∧
      response.data = response'.data ∧ response.errors.Perm response'.errors ∧
      (Event.calls (execute schema document params).log).Perm
        (Event.calls (execute schema' document params').log) := by
  rcases ExecutionContext.build_agrees document hschema hparams with
    hbuild | ⟨ctx, ctx', hbuild, hbuild', hagrees⟩
  · -- No operation is executed, so there is nothing that could differ.
    have hexecute : execute schema document params = execute schema' document params' := by
      rw [execute, execute, hbuild]
    rw [← hexecute]
    exact ⟨response, hresponse, rfl, .refl _, .refl _⟩
  · rw [execute_of_build hbuild] at hresponse ⊢
    rw [execute_of_build hbuild']
    exact hagrees.respond_agrees hresponse

/-- The sample with a user who takes three visits, and counts that take two. -/
def Sample.slowParams : ExecutionParams :=
  { Sample.params with
    fieldResolver := Resolver.standard.paced fun ctx =>
      if ctx.info.fieldName = "user" then 3 else if ctx.info.fieldName = "counts" then 2 else 0 }

theorem execute_agrees_sample :
    ∃ response response',
      (execute Sample.schema Sample.document Sample.params).outcome = .ok response ∧
      (execute Sample.schema Sample.document Sample.params).polls = 0 ∧
      (execute Sample.schema Sample.document Sample.slowParams).outcome = .ok response' ∧
      (execute Sample.schema Sample.document Sample.slowParams).polls = 3 ∧
      response.data = response'.data ∧ response.errors.Perm response'.errors ∧
      (Event.calls (execute Sample.schema Sample.document Sample.params).log).Perm
        (Event.calls (execute Sample.schema Sample.document Sample.slowParams).log) := by
  obtain ⟨response, hresponse, -⟩ := Sample.exists_response
  -- Slowing a resolver down does not change what it ends with.
  have hparams : Sample.params.Agrees Sample.slowParams :=
    { rootValue := rfl
      context := rfl
      vars := rfl
      operationName := rfl
      fieldResolver := (Resolver.paced_agrees _ _).symm
      typeResolver := rfl
      middleware := Middleware.empty_agrees }
  obtain ⟨response', hresponse', hequal⟩ := execute_agrees (.refl Sample.schema) hparams hresponse
  exact ⟨response, response', hresponse, rfl, hresponse', rfl, hequal⟩

end GraphQL
